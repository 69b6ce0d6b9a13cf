import Dmtap.Mail.Imap.Fuel

/-! Text without literals, as the tokenizer takes it apart. Such text keeps its tokens whatever
follows it, as long as that ends an atom. -/
namespace Dmtap.Mail.Imap
open Lib

section Equations

theorem tokenizeLoop_succ {fuel : ℕ} {buf : Bytes} (h : buf.length ≤ fuel) :
    tokenizeLoop (fuel + 1) buf = tokenizeLoop fuel buf := by
  induction fuel generalizing buf with
  | zero =>
    rw [List.eq_nil_of_length_eq_zero (Nat.le_zero.mp h)]
    rfl
  | succ fuel ih =>
    cases buf with
    | nil => rfl
    | cons b rest =>
      have hrest : rest.length ≤ fuel := Nat.le_of_succ_le_succ h
      unfold tokenizeLoop
      rw [ih hrest]
      -- Both sides ask the same of the byte; what is left over is read with less fuel.
      refine ite_congr rfl (fun _ => rfl) fun hblank => ?_
      refine ite_congr rfl (fun _ => rfl) fun hopen => ?_
      refine ite_congr rfl (fun _ => rfl) fun hclose => ?_
      refine ite_congr rfl (fun _ => rfl) fun hbracket => ?_
      refine ite_congr rfl (fun _ => rfl) fun hclosing => ?_
      refine ite_congr rfl (fun _ => ?_) fun hquote => ite_congr rfl (fun _ => ?_) fun hbrace => ?_
      · cases hquoted : readQuoted [] rest with
        | error fault => rfl
        | ok r =>
          have hle := (answers_readQuoted [] rest).of_ok hquoted
          change (tokenizeLoop (fuel + 1) r.2 >>= _) = (tokenizeLoop fuel r.2 >>= _)
          rw [ih (hle.trans hrest)]
      · cases hliteral : readLiteral rest with
        | error fault => rfl
        | ok r =>
          have hle := (answers_readLiteral rest).of_ok hliteral
          change (tokenizeLoop (fuel + 1) r.2 >>= _) = (tokenizeLoop fuel r.2 >>= _)
          rw [ih (hle.trans hrest)]
      · have hatom : endsAtom b = false := by simp_all [endsAtom]
        have hlt := readAtom_length_lt rest hatom
        dsimp only
        rw [ih (Nat.le_of_lt_succ (lt_of_lt_of_le hlt h))]

theorem tokenizeLoop_eq {fuel : ℕ} {buf : Bytes} (h : buf.length ≤ fuel) :
    tokenizeLoop fuel buf = tokenize buf := by
  induction fuel, h using Nat.le_induction with
  | base => rfl
  | succ fuel h ih => rw [tokenizeLoop_succ h, ih]

def isBlank (b : UInt8) : Bool := b == 32 || b == 9 || b == 13 || b == 10

def bracket : UInt8 → Option Token
  | 40 => some .lparen
  | 41 => some .rparen
  | 91 => some .lbracket
  | 93 => some .rbracket
  | _ => none

theorem tokenize_blank {b : UInt8} (rest : Bytes) (hb : isBlank b = true) :
    tokenize (b :: rest) = tokenize rest := by
  change tokenizeLoop (rest.length + 1) (b :: rest) = _
  unfold tokenizeLoop
  rw [if_pos (by simpa [isBlank, or_assoc] using hb)]
  rfl

theorem tokenize_bracket {b : UInt8} {t : Token} (rest : Bytes) (hb : bracket b = some t) :
    tokenize (b :: rest) = tokenize rest >>= fun toks => .ok (t :: toks) := by
  unfold bracket at hb
  split at hb
  · cases hb
    rfl
  · cases hb
    rfl
  · cases hb
    rfl
  · cases hb
    rfl
  · cases hb

theorem tokenize_quote (rest : Bytes) :
    tokenize (34 :: rest) =
      readQuoted [] rest >>= fun r => tokenize r.2 >>= fun toks => .ok (.quoted r.1 :: toks) := by
  change readQuoted [] rest >>= _ = _
  cases hquoted : readQuoted [] rest with
  | error fault => rfl
  | ok r =>
    have hle := (answers_readQuoted [] rest).of_ok hquoted
    change (tokenizeLoop rest.length r.2 >>= _) = (tokenize r.2 >>= _)
    rw [tokenizeLoop_eq hle]

theorem tokenize_literal (rest : Bytes) :
    tokenize (123 :: rest) =
      readLiteral rest >>= fun r => tokenize r.2 >>= fun toks => .ok (.literal r.1 :: toks) := by
  change readLiteral rest >>= _ = _
  cases hliteral : readLiteral rest with
  | error fault => rfl
  | ok r =>
    have hle := (answers_readLiteral rest).of_ok hliteral
    change (tokenizeLoop rest.length r.2 >>= _) = (tokenize r.2 >>= _)
    rw [tokenizeLoop_eq hle]

theorem tokenize_atom {b : UInt8} (rest : Bytes) (hb : endsAtom b = false) :
    tokenize (b :: rest) = tokenize (readAtom (b :: rest)).2 >>= fun toks =>
      .ok (.atom (readAtom (b :: rest)).1 :: toks) := by
  have hlt := readAtom_length_lt rest hb
  change tokenizeLoop (rest.length + 1) (b :: rest) = _
  unfold tokenizeLoop
  simp only [endsAtom, Bool.or_eq_false_iff, beq_eq_false_iff_ne] at hb
  rw [if_neg (by simp [hb]), if_neg (by simp [hb]), if_neg (by simp [hb]), if_neg (by simp [hb]),
    if_neg (by simp [hb]), if_neg (by simp [hb]), if_neg (by simp [hb])]
  dsimp only
  rw [tokenizeLoop_eq (Nat.le_of_lt_succ hlt)]

end Equations

section Text

/-- The bytes outside quoted strings, with `quoted` telling whether one is open. -/
def unquoted : Bool → Bytes → Bytes
  | _, [] => []
  | true, 34 :: rest => unquoted false rest
  | true, 92 :: _ :: rest => unquoted true rest
  | true, _ :: rest => unquoted true rest
  | false, 34 :: rest => unquoted true rest
  | false, b :: rest => b :: unquoted false rest

/-- Text without literals and without closing braces, spelled token by token. -/
inductive Spells : Bytes → List Token → Prop where
  | nil : Spells [] []
  | blank {b : UInt8} {rest : Bytes} {ts : List Token} (hb : isBlank b = true)
    (h : Spells rest ts) : Spells (b :: rest) ts
  | bracket {b : UInt8} {t : Token} {rest : Bytes} {ts : List Token} (hb : bracket b = some t)
    (h : Spells rest ts) : Spells (b :: rest) (t :: ts)
  | quoted {q rest : Bytes} {s : String} {ts : List Token}
    (hq : ∀ more, readQuoted [] (q ++ 34 :: more) = .ok (s, more)) (h : Spells rest ts) :
    Spells (34 :: (q ++ 34 :: rest)) (.quoted s :: ts)
  | atom {b : UInt8} {a rest : Bytes} {ts : List Token}
    (ha : ∀ c ∈ b :: a, endsAtom c = false ∧ c ≠ 125)
    (hrest : ∀ c, rest.head? = some c → endsAtom c = true) (h : Spells rest ts) :
    Spells (b :: a ++ rest) (.atom (fromUtf8Lossy (b :: a)) :: ts)

theorem readQuoted_plain {c : UInt8} (acc : List Char) (rest : Bytes) (hquote : c ≠ 34)
    (hescape : c ≠ 92) : readQuoted acc (c :: rest) = readQuoted (latin1 c :: acc) rest := by
  conv_lhs => unfold readQuoted
  split
  · contradiction
  · next heq => exact absurd (List.cons.inj heq).1 hquote
  · next heq => exact absurd (List.cons.inj heq).1 hescape
  · next heq =>
    obtain ⟨rfl, rfl⟩ := List.cons.inj heq
    rfl

theorem unquoted_true_plain {c : UInt8} (rest : Bytes) (hquote : c ≠ 34) (hescape : c ≠ 92) :
    unquoted true (c :: rest) = unquoted true rest := by
  conv_lhs => unfold unquoted
  split
  · contradiction
  · next heq => exact absurd (List.cons.inj heq).1 hquote
  · next heq => exact absurd (List.cons.inj heq).1 hescape
  · next heq =>
    obtain ⟨rfl, rfl⟩ := List.cons.inj heq
    rfl
  · contradiction
  · contradiction

theorem unquoted_false_plain {c : UInt8} (rest : Bytes) (hquote : c ≠ 34) :
    unquoted false (c :: rest) = c :: unquoted false rest := by
  conv_lhs => unfold unquoted
  split
  · contradiction
  · contradiction
  · contradiction
  · contradiction
  · next heq => exact absurd (List.cons.inj heq).1 hquote
  · next heq =>
    obtain ⟨rfl, rfl⟩ := List.cons.inj heq
    rfl

/-- A quoted string ends at the quote that the scan for text outside of quotes stops at. -/
theorem readQuoted_spec {acc : List Char} {buf : Bytes} {r : String × Bytes}
    (h : readQuoted acc buf = .ok r) :
    ∃ q, buf = q ++ 34 :: r.2 ∧ (∀ more, readQuoted acc (q ++ 34 :: more) = .ok (r.1, more)) ∧
      unquoted true buf = unquoted false r.2 := by
  fun_induction readQuoted acc buf with
  | case1 => cases h
  | case2 acc rest =>
    cases h
    exact ⟨[], rfl, fun more => rfl, rfl⟩
  | case3 acc c rest ih =>
    obtain ⟨q, hbuf, hread, hunquoted⟩ := ih h
    refine ⟨92 :: c :: q, ?_, ?_, ?_⟩
    · rw [hbuf]
      rfl
    · exact hread
    · exact hunquoted
  | case4 acc c rest hquote hescape ih =>
    obtain ⟨q, hbuf, hread, hunquoted⟩ := ih h
    have hc : c ≠ 92 := by
      rintro rfl
      cases q with
      | nil => exact hescape _ _ rfl hbuf
      | cons d q => exact hescape _ _ rfl hbuf
    refine ⟨c :: q, ?_, ?_, ?_⟩
    · rw [hbuf]
      rfl
    · intro more
      rw [List.cons_append, readQuoted_plain _ _ hquote hc]
      exact hread more
    · rw [unquoted_true_plain _ hquote hc]
      exact hunquoted

/-- Every byte starts a token of its own kind. -/
theorem byte_cases (b : UInt8) :
    isBlank b = true ∨ (∃ t, bracket b = some t) ∨ b = 34 ∨ b = 123 ∨ endsAtom b = false := by
  cases hb : endsAtom b with
  | false => simp
  | true =>
    simp only [endsAtom, Bool.or_eq_true, beq_iff_eq] at hb
    obtain (((((((((rfl | rfl) | rfl) | rfl) | rfl) | rfl) | rfl) | rfl) | rfl) | rfl) := hb
    all_goals simp [isBlank, bracket]

theorem dropWhile_head {buf : Bytes} {c : UInt8}
    (h : (buf.dropWhile fun b => !endsAtom b).head? = some c) : endsAtom c = true := by
  have hnot := List.head?_dropWhile_not (fun b => !endsAtom b) buf
  rw [h] at hnot
  simpa using hnot

theorem unquoted_append_of_plain {a : Bytes} (ha : ∀ c ∈ a, endsAtom c = false) (rest : Bytes) :
    unquoted false (a ++ rest) = a ++ unquoted false rest := by
  induction a with
  | nil => rfl
  | cons c a ih =>
    have hc : c ≠ 34 := by
      rintro rfl
      exact absurd (ha 34 List.mem_cons_self) (by decide)
    rw [List.cons_append, unquoted_false_plain _ hc, ih fun d hd => ha d (List.mem_cons_of_mem c hd)]
    rfl

/-- Text that the tokenizer gets through and that has no braces outside of quoted strings. -/
theorem spells_of_tokenize {buf : Bytes} {ts : List Token} (h : tokenize buf = .ok ts)
    (hopen : 123 ∉ unquoted false buf) (hclose : 125 ∉ unquoted false buf) : Spells buf ts := by
  induction hlen : buf.length using Nat.strong_induction_on generalizing buf ts with
  | _ n ih =>
    subst hlen
    cases buf with
    | nil =>
      cases h
      exact .nil
    | cons b rest =>
      obtain hb | ⟨t, hb⟩ | rfl | rfl | hb := byte_cases b
      · have hb34 : b ≠ 34 := by
          rintro rfl
          exact absurd hb (by decide)
        rw [unquoted_false_plain rest hb34, List.mem_cons, not_or] at hopen hclose
        rw [tokenize_blank rest hb] at h
        exact .blank hb (ih rest.length (Nat.lt_succ_self _) h hopen.2 hclose.2 rfl)
      · have hb34 : b ≠ 34 := by
          rintro rfl
          cases hb
        rw [unquoted_false_plain rest hb34, List.mem_cons, not_or] at hopen hclose
        rw [tokenize_bracket rest hb] at h
        obtain ⟨toks, htoks, heq⟩ := exists_of_bind_eq_ok h
        cases heq
        exact .bracket hb (ih rest.length (Nat.lt_succ_self _) htoks hopen.2 hclose.2 rfl)
      · rw [tokenize_quote] at h
        obtain ⟨r, hquoted, hbind⟩ := exists_of_bind_eq_ok h
        obtain ⟨toks, htoks, heq⟩ := exists_of_bind_eq_ok hbind
        cases heq
        obtain ⟨q, hrest, hread, hunquoted⟩ := readQuoted_spec hquoted
        change 123 ∉ unquoted true rest at hopen
        change 125 ∉ unquoted true rest at hclose
        rw [hunquoted] at hopen hclose
        have hlt : r.2.length < (34 :: rest).length := by
          rw [hrest]
          simp only [List.length_cons, List.length_append]
          omega
        rw [hrest]
        exact .quoted hread (ih r.2.length hlt htoks hopen hclose rfl)
      · exact absurd List.mem_cons_self hopen
      · rw [tokenize_atom rest hb] at h
        obtain ⟨toks, htoks, heq⟩ := exists_of_bind_eq_ok h
        cases heq
        have hlt := readAtom_length_lt rest hb
        have hsplit : b :: rest.takeWhile (fun c => !endsAtom c) ++ rest.dropWhile (fun c => !endsAtom c) =
            b :: rest := by
          rw [List.cons_append, List.takeWhile_append_dropWhile]
        have hatom : ∀ c ∈ b :: rest.takeWhile (fun c => !endsAtom c), endsAtom c = false := by
          intro c hc
          obtain rfl | hc := List.mem_cons.mp hc
          · exact hb
          · simpa using List.mem_takeWhile_imp hc
        rw [readAtom_cons rest hb] at htoks hlt ⊢
        rw [← hsplit, unquoted_append_of_plain hatom, List.mem_append, not_or] at hopen hclose
        rw [← hsplit]
        refine .atom ?_ (fun c hc => dropWhile_head hc) (ih _ hlt htoks hopen.2 hclose.2 rfl)
        intro c hc
        refine ⟨hatom c hc, ?_⟩
        rintro rfl
        exact hclose.1 hc

theorem readAtom_append {b : UInt8} {a rest : Bytes} (ha : ∀ c ∈ b :: a, endsAtom c = false)
    (hrest : ∀ c, rest.head? = some c → endsAtom c = true) :
    readAtom (b :: a ++ rest) = (fromUtf8Lossy (b :: a), rest) := by
  have hall : ∀ c ∈ b :: a, (!endsAtom c) = true := fun c hc => by rw [ha c hc]; rfl
  unfold readAtom
  rw [List.takeWhile_append_of_pos hall, List.dropWhile_append_of_pos hall]
  cases rest with
  | nil => rw [List.takeWhile_nil, List.dropWhile_nil, List.append_nil]
  | cons c rest =>
    have hc : ¬(!endsAtom c) = true := by rw [hrest c rfl]; exact Bool.false_ne_true
    rw [List.takeWhile_cons_of_neg (p := fun c => !endsAtom c) hc,
      List.dropWhile_cons_of_neg (p := fun c => !endsAtom c) hc, List.append_nil]

/-- Text keeps its tokens in front of anything that ends an atom. -/
theorem Spells.tokenize_append {buf tail : Bytes} {ts : List Token} (h : Spells buf ts)
    (htail : ∀ c, tail.head? = some c → endsAtom c = true) :
    tokenize (buf ++ tail) = tokenize tail >>= fun more => .ok (ts ++ more) := by
  have hcons : ∀ {t : Token} {ts : List Token}, (tokenize tail >>= fun more => .ok (ts ++ more)) >>=
      (fun toks => .ok (t :: toks)) = tokenize tail >>= fun more => .ok (t :: ts ++ more) := by
    intro t ts
    cases tokenize tail with
    | ok more => rfl
    | error fault => rfl
  induction h with
  | nil =>
    rw [List.nil_append]
    cases tokenize tail with
    | ok more => rfl
    | error fault => rfl
  | blank hb _ ih => rw [List.cons_append, tokenize_blank _ hb, ih]
  | bracket hb _ ih => rw [List.cons_append, tokenize_bracket _ hb, ih, hcons]
  | @quoted q rest s ts hq _ ih =>
    have hread := hq (rest ++ tail)
    have hassoc : 34 :: (q ++ 34 :: rest) ++ tail = 34 :: (q ++ 34 :: (rest ++ tail)) := by simp
    rw [hassoc, tokenize_quote, hread]
    change tokenize (rest ++ tail) >>= _ = _
    rw [ih, hcons]
  | @atom b a rest ts ha hrest _ ih =>
    have hends : ∀ c, (rest ++ tail).head? = some c → endsAtom c = true := by
      intro c hc
      cases rest with
      | nil => exact htail c hc
      | cons d rest => exact hrest c hc
    have hread := readAtom_append (fun c hc => (ha c hc).1) hends
    rw [List.append_assoc, List.cons_append, tokenize_atom _ (ha b List.mem_cons_self).1,
      ← List.cons_append, hread]
    dsimp only
    rw [ih, hcons]

/-- No such text ends with a closing brace. -/
theorem Spells.getLast?_ne {buf : Bytes} {ts : List Token} (h : Spells buf ts) :
    buf.getLast? ≠ some 125 := by
  have hjoin : ∀ {front rest : Bytes}, front.getLast? ≠ some 125 → rest.getLast? ≠ some 125 →
      (front ++ rest).getLast? ≠ some 125 := by
    intro front rest hfront hrest
    rw [List.getLast?_append]
    cases hlast : rest.getLast? with
    | none => exact hfront
    | some c =>
      rw [hlast] at hrest
      exact hrest
  induction h with
  | nil => simp
  | @blank b rest ts hb _ ih =>
    change ([b] ++ rest).getLast? ≠ some 125
    refine hjoin (fun hlast => ?_) ih
    cases hlast
    exact absurd hb (by decide)
  | @bracket b t rest ts hb _ ih =>
    change ([b] ++ rest).getLast? ≠ some 125
    refine hjoin (fun hlast => ?_) ih
    cases hlast
    cases hb
  | @quoted q rest s ts hq _ ih =>
    have hsplit : 34 :: (q ++ 34 :: rest) = (34 :: q ++ [34]) ++ rest := by simp
    rw [hsplit]
    refine hjoin ?_ ih
    rw [List.getLast?_concat]
    decide
  | atom ha hrest _ ih =>
    refine hjoin (fun hlast => ?_) ih
    exact (ha 125 (List.mem_of_getLast? hlast)).2 rfl

end Text

end Dmtap.Mail.Imap
