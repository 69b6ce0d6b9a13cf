import Dmtap.Mail.Addresses
import Dmtap.Mail.Cleartext

/-! Which lines end an SMTP session in a fault. -/
namespace Dmtap.Mail.Smtp
open Lib

/-- Behind the keyword a `>` stands in front of every `<`, and there is one of each. -/
def PathInverted (rest keyword : String) : Prop :=
  ∃ idx pre post, findStr (keyword ++ ":").toList rest.toUpper.toList = some idx ∧
    rest.toList.drop (idx + (keyword ++ ":").toList.length) = pre ++ '>' :: post ∧
    '<' ∉ pre ∧ '<' ∈ post

section Path

/-- In a text the first `>` stands in front of the first `<`. -/
theorem first_gt_lt_iff {cs : List Char} {lt gt : ℕ} (hlt : firstAt '<' cs = some lt)
    (hgt : firstAt '>' cs = some gt) :
    ¬lt + 1 ≤ gt ↔ ∃ pre post, cs = pre ++ '>' :: post ∧ '<' ∉ pre ∧ '<' ∈ post := by
  obtain ⟨hopen, hfirst⟩ := firstAt_eq_some hlt
  obtain ⟨hclose, hfirst'⟩ := firstAt_eq_some hgt
  obtain ⟨hgtlt, hgtat⟩ := List.getElem?_eq_some_iff.mp hclose
  constructor
  · intro h
    have hne : lt ≠ gt := by
      rintro rfl
      rw [hopen] at hclose
      exact absurd (Option.some.inj hclose) (by decide)
    refine ⟨cs.take gt, cs.drop (gt + 1), ?_, ?_, ?_⟩
    · rw [← hgtat, List.cons_getElem_drop_succ, List.take_append_drop]
    · intro hmem
      obtain ⟨i, hi⟩ := List.mem_iff_getElem?.mp hmem
      rw [List.getElem?_take] at hi
      split_ifs at hi with hig
      have hle := hfirst i hi
      omega
    · refine List.mem_iff_getElem?.mpr ⟨lt - (gt + 1), ?_⟩
      rw [List.getElem?_drop, Nat.add_sub_cancel' (by omega)]
      exact hopen
  · intro h
    obtain ⟨pre, post, rfl, hpre, hpost⟩ := h
    have hle : gt ≤ pre.length := hfirst' pre.length (by simp)
    have hge : pre.length ≤ lt := by
      by_contra hshort
      rw [List.getElem?_append_left (by omega)] at hopen
      exact hpre (List.mem_of_getElem? hopen)
    omega

theorem inverted_dropWhile (cs : List Char) :
    (∃ pre post, cs.dropWhile isWhitespace = pre ++ '>' :: post ∧ '<' ∉ pre ∧ '<' ∈ post) ↔
      ∃ pre post, cs = pre ++ '>' :: post ∧ '<' ∉ pre ∧ '<' ∈ post := by
  induction cs with
  | nil => rfl
  | cons c cs ih =>
    by_cases hc : isWhitespace c = true
    · have hopen : c ≠ '<' := fun h => absurd (h ▸ hc) (by decide)
      have hclose : c ≠ '>' := fun h => absurd (h ▸ hc) (by decide)
      rw [List.dropWhile_cons_of_pos hc, ih]
      constructor
      · intro h
        obtain ⟨pre, post, rfl, hpre, hpost⟩ := h
        refine ⟨c :: pre, post, rfl, ?_, hpost⟩
        simp [hpre, Ne.symm hopen]
      · intro h
        obtain ⟨pre, post, heq, hpre, hpost⟩ := h
        cases pre with
        | nil => exact absurd (List.cons.inj heq).1 hclose
        | cons d pre =>
          exact ⟨pre, post, (List.cons.inj heq).2, fun h => hpre (List.mem_cons_of_mem d h), hpost⟩
    · rw [List.dropWhile_cons_of_neg hc]

/-- The path of a command is cut out of range exactly where its brackets are inverted. -/
theorem parsePathParam_eq_none_iff (rest keyword : String) :
    parsePathParam rest keyword = none ↔ PathInverted rest keyword := by
  unfold parsePathParam PathInverted
  dsimp only
  cases findStr (keyword ++ ":").toList rest.toUpper.toList with
  | none => simp
  | some idx =>
    simp only [Option.some.injEq, exists_and_left, exists_eq_left']
    rw [← inverted_dropWhile]
    generalize (rest.toList.drop (idx + (keyword ++ ":").toList.length)).dropWhile
      isWhitespace = after
    cases hlt : findChar '<' after with
    | none =>
      have hno : '<' ∉ after := firstAt_eq_none.mp hlt
      refine iff_of_false (fun h => by cases h) fun h => ?_
      obtain ⟨pre, post, rfl, -, hpost⟩ := h
      exact hno (by simp [hpost])
    | some lt =>
      cases hgt : findChar '>' after with
      | none =>
        have hno : '>' ∉ after := firstAt_eq_none.mp hgt
        refine iff_of_false (fun h => by cases h) fun h => ?_
        obtain ⟨pre, post, rfl, -, -⟩ := h
        exact hno (by simp)
      | some gt =>
        refine Iff.trans ?_ (first_gt_lt_iff hlt hgt)
        dsimp only
        split_ifs with h
        · simp [h]
        · simp [h]

end Path

namespace Session

/-- The line is a MAIL or RCPT command, comes where the session reads its path, and the brackets of
the path are inverted. -/
def Inverts (s : Session) (line : Bytes) : Prop :=
  s.phase ≠ .data ∧ s.pendingAuth = none ∧
    (((verbAndRest (fromUtf8Lossy line)).1 = "MAIL" ∧
        (s.requireAuth = true → s.authed.isSome = true) ∧
        PathInverted (verbAndRest (fromUtf8Lossy line)).2 "FROM") ∨
      ((verbAndRest (fromUtf8Lossy line)).1 = "RCPT" ∧ s.mailFrom.isSome = true ∧
        PathInverted (verbAndRest (fromUtf8Lossy line)).2 "TO"))

variable (s : Session)

theorem cmdMail_eq_none_iff (rest : String) :
    s.cmdMail rest = none ↔
      (s.requireAuth = true → s.authed.isSome = true) ∧ PathInverted rest "FROM" := by
  rw [← parsePathParam_eq_none_iff]
  unfold cmdMail
  by_cases hauth : s.requireAuth = true ∧ s.authed = none
  · rw [if_pos (by simp [hauth.1, hauth.2])]
    simp [hauth.1, hauth.2]
  · have hallowed : s.requireAuth = true → s.authed.isSome = true := by
      intro hrequire
      rw [Option.isSome_iff_ne_none]
      exact fun hnone => hauth ⟨hrequire, hnone⟩
    rw [if_neg (by simpa using hauth), and_iff_right hallowed]
    cases parsePathParam rest "FROM" with
    | none => simp
    | some addr =>
      cases addr with
      | none => simp
      | some addr =>
        dsimp only
        split_ifs
        · simp
        · simp

theorem cmdRcpt_eq_none_iff (rest : String) :
    s.cmdRcpt rest = none ↔ s.mailFrom.isSome = true ∧ PathInverted rest "TO" := by
  rw [← parsePathParam_eq_none_iff]
  unfold cmdRcpt
  cases s.mailFrom with
  | none => simp
  | some sender =>
    rw [if_neg (by simp)]
    cases parsePathParam rest "TO" with
    | none => simp
    | some addr =>
      cases addr with
      | none => simp
      | some addr => simp

/-- A line gets its reply unless it inverts a path. -/
theorem feedLineBytes_eq_none_iff (line : Bytes) :
    s.feedLineBytes line = none ↔ s.Inverts line := by
  unfold feedLineBytes Inverts
  by_cases hdata : s.phase = .data
  · simp [hdata]
  · rw [if_neg hdata, and_iff_right hdata]
    dsimp only
    generalize verbAndRest (fromUtf8Lossy line) = command
    obtain ⟨verb, rest⟩ := command
    cases s.pendingAuth with
    | some p => simp
    | none =>
      rw [and_iff_right rfl]
      dsimp only
      by_cases hmail : verb = "MAIL"
      · subst hmail
        refine (s.cmdMail_eq_none_iff rest).trans ?_
        simp
      · by_cases hrcpt : verb = "RCPT"
        · subst hrcpt
          refine (s.cmdRcpt_eq_none_iff rest).trans ?_
          simp
        · refine iff_of_false ?_ (by simp [hmail, hrcpt])
          split
          case h_5 => exact absurd rfl hmail
          case h_6 => exact absurd rfl hrcpt
          all_goals simp

variable {s}

theorem run_cons_of_feed {input : Input} {t : Session} {text : String}
    (hfeed : s.feed input = some (t, text)) (inputs : List Input) :
    s.run (input :: inputs) = (t.run inputs).map fun r => (r.1, text :: r.2) := by
  have hrun : s.run (input :: inputs) = (s.feed input).bind fun p =>
      (p.1.run inputs).bind fun r => some (r.1, p.2 :: r.2) := rfl
  rw [hrun, hfeed, Option.bind_some]
  cases t.run inputs with
  | none => rfl
  | some r => rfl

/-- A run goes through exactly when every call in it returns. -/
theorem run_isSome_iff_feed (inputs : List Input) :
    (s.run inputs).isSome = true ↔ ∀ pre input post, inputs = pre ++ input :: post →
      ∀ t texts, s.run pre = some (t, texts) → (t.feed input).isSome = true := by
  induction inputs generalizing s with
  | nil => simp [run]
  | cons input inputs ih =>
    cases hfeed : s.feed input with
    | none =>
      have hnone : s.run (input :: inputs) = none := by
        unfold run
        rw [hfeed]
        rfl
      rw [hnone]
      refine iff_of_false (by simp) fun h => ?_
      have hsome := h [] input inputs rfl s [] rfl
      rw [hfeed] at hsome
      cases hsome
    | some r =>
      obtain ⟨t, text⟩ := r
      rw [run_cons_of_feed hfeed, Option.isSome_map, ih]
      constructor
      · intro h pre x post heq u texts hpre
        cases pre with
        | nil =>
          obtain ⟨rfl, -⟩ := List.cons.inj heq
          obtain ⟨rfl, -⟩ := Prod.mk.inj (Option.some.inj hpre)
          rw [hfeed]
          rfl
        | cons y pre =>
          obtain ⟨rfl, hrest⟩ := List.cons.inj heq
          rw [run_cons_of_feed hfeed] at hpre
          obtain ⟨r, hr, hru⟩ := Option.map_eq_some_iff.mp hpre
          obtain ⟨rfl, -⟩ := Prod.mk.inj hru
          exact h pre x post hrest r.1 r.2 hr
      · intro h pre x post heq u texts hpre
        refine h (input :: pre) x post (by rw [heq]; rfl) u (text :: texts) ?_
        rw [run_cons_of_feed hfeed, hpre]
        rfl

/-- From a fresh session, whoever answers for its logins, every line of a run gets a reply exactly
when no line inverts a path in the state it comes to. -/
theorem run_isSome_iff (auth : Authenticator) (tls : Bool) (inputs : List Input) :
    ((new auth tls).run inputs).isSome = true ↔
      ∀ pre line post, inputs = pre ++ .line line :: post →
        ∀ s texts, (new auth tls).run pre = some (s, texts) → ¬s.Inverts line := by
  rw [run_isSome_iff_feed]
  have hline : ∀ (s : Session) (line : Bytes),
      (s.feed (.line line)).isSome = true ↔ ¬s.Inverts line := by
    intro s line
    rw [Option.isSome_iff_ne_none]
    exact not_congr (s.feedLineBytes_eq_none_iff line)
  constructor
  · intro h pre line post heq s texts hpre
    exact (hline s line).mp (h pre (.line line) post heq s texts hpre)
  · intro h pre input post heq s texts hpre
    cases input with
    | greeting => rfl
    | setMaxSize max => rfl
    | takeSubmissions => rfl
    | line line => exact (hline s line).mpr (h pre line post heq s texts hpre)

/-- After a login `MAIL FROM:><` ends the session in a fault. -/
theorem run_isSome_inverted :
    (new (.issued "alice" "pw" [1]) true).run [.line (utf8 "EHLO a"),
      .line (utf8 "AUTH PLAIN AGFsaWNlAHB3"), .line (utf8 "MAIL FROM:><")] = none := by
  decide +kernel

end Session
end Dmtap.Mail.Smtp
