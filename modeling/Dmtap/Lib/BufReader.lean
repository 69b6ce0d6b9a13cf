import Dmtap.Lib.Bytes

/-! A buffered stream: the bytes still to come, cut into the buffers that a reader gets to see one
at a time. The cuts can lie anywhere, and no buffer is empty before the end. -/
namespace Dmtap.Lib

inductive BufReader where
  | done
  | buffered (b : UInt8) (bs : Bytes) (later : BufReader)
  deriving DecidableEq

namespace BufReader

/-- Everything still to come. -/
def bytes : BufReader → Bytes
  | done => []
  | buffered b bs later => b :: bs ++ later.bytes

/-- Put a buffer in front, if there is something in it. -/
def push : Bytes → BufReader → BufReader
  | [], later => later
  | b :: bs, later => buffered b bs later

/-- Drop bytes of the current buffer. -/
def consume (n : ℕ) : BufReader → BufReader
  | done => done
  | buffered b bs later => push ((b :: bs).drop n) later

/-- Exactly `n` bytes, from as many buffers as it takes. -/
def readExact : ℕ → BufReader → Option (Bytes × BufReader)
  | n, done => if n = 0 then some ([], done) else none
  | n, buffered b bs later =>
    if n ≤ (b :: bs).length then some ((b :: bs).take n, (buffered b bs later).consume n)
    else (readExact (n - (b :: bs).length) later).map fun r => (b :: bs ++ r.1, r.2)

/-- The bytes up to and with the next `b`, or all that are left. -/
def readUntil (b : UInt8) : BufReader → Bytes × BufReader
  | done => ([], done)
  | buffered c cs later =>
    match (c :: cs).findIdx? (· == b) with
    | some pos => ((c :: cs).take (pos + 1), (buffered c cs later).consume (pos + 1))
    | none =>
      let (more, rest) := readUntil b later
      (c :: cs ++ more, rest)

theorem bytes_push (buf : Bytes) (later : BufReader) :
    (push buf later).bytes = buf ++ later.bytes := by
  cases buf with
  | nil => rfl
  | cons b bs => rfl

theorem bytes_consume (n : ℕ) (b : UInt8) (bs : Bytes) (later : BufReader) :
    (b :: bs).take n ++ ((buffered b bs later).consume n).bytes = b :: bs ++ later.bytes := by
  unfold consume
  rw [bytes_push, ← List.append_assoc, List.take_append_drop]

/-- What is read and what is left make up the stream. -/
theorem bytes_of_readExact {r r' : BufReader} {n : ℕ} {front : Bytes}
    (h : r.readExact n = some (front, r')) : r.bytes = front ++ r'.bytes := by
  induction r generalizing n front with
  | done =>
    unfold readExact at h
    split_ifs at h
    cases h
    rfl
  | buffered b bs later ih =>
    unfold readExact at h
    by_cases hle : n ≤ (b :: bs).length
    · rw [if_pos hle] at h
      cases h
      exact (bytes_consume n b bs later).symm
    · rw [if_neg hle] at h
      obtain ⟨⟨more, r''⟩, hread, heq⟩ := Option.map_eq_some_iff.mp h
      cases heq
      change b :: bs ++ later.bytes = _
      rw [ih hread, List.append_assoc]

theorem readExact_spec {r : BufReader} {front rest : Bytes} (h : r.bytes = front ++ rest) :
    ∃ r' : BufReader, r.readExact front.length = some (front, r') ∧ r'.bytes = rest := by
  induction r generalizing front with
  | done =>
    obtain ⟨rfl, rfl⟩ := List.append_eq_nil_iff.mp h.symm
    exact ⟨done, rfl, rfl⟩
  | buffered b bs later ih =>
    change b :: bs ++ later.bytes = front ++ rest at h
    by_cases hle : front.length ≤ (b :: bs).length
    · refine ⟨push ((b :: bs).drop front.length) later, ?_, ?_⟩
      · have htake : (b :: bs).take front.length = front := by
          rw [← List.take_append_of_le_length hle, h, List.take_left]
        unfold readExact
        rw [if_pos hle, htake]
        rfl
      · rw [bytes_push, ← List.drop_append_of_le_length hle, h, List.drop_left]
    · obtain ⟨more, rfl, hlater⟩ : ∃ more, front = b :: bs ++ more ∧ later.bytes = more ++ rest := by
        obtain ⟨more, hfront, hbytes⟩ | ⟨more, hbuf, -⟩ := List.append_eq_append_iff.mp h
        · exact ⟨more, hfront, hbytes⟩
        · rw [hbuf, List.length_append] at hle
          exact absurd (Nat.le_add_right _ _) hle
      obtain ⟨r', hread, hrest⟩ := ih hlater
      refine ⟨r', ?_, hrest⟩
      unfold readExact
      rw [if_neg hle, List.length_append, Nat.add_sub_cancel_left, hread]
      rfl

theorem length_of_readExact {r r' : BufReader} {n : ℕ} {front : Bytes}
    (h : r.readExact n = some (front, r')) : front.length = n := by
  induction r generalizing n front with
  | done =>
    unfold readExact at h
    split_ifs at h with hzero
    cases h
    exact hzero.symm
  | buffered b bs later ih =>
    unfold readExact at h
    by_cases hle : n ≤ (b :: bs).length
    · rw [if_pos hle] at h
      cases h
      exact List.length_take_of_le hle
    · rw [if_neg hle] at h
      obtain ⟨⟨more, r''⟩, hread, heq⟩ := Option.map_eq_some_iff.mp h
      cases heq
      have hmore : more.length = n - (b :: bs).length := ih hread
      change (b :: bs ++ more).length = n
      rw [List.length_append]
      omega

/-- Whether there are enough bytes does not depend on how they are cut. -/
theorem readExact_congr {r r' : BufReader} (h : r.bytes = r'.bytes) (n : ℕ) :
    (r.readExact n = none ∧ r'.readExact n = none) ∨ ∃ front rest rest',
      r.readExact n = some (front, rest) ∧ r'.readExact n = some (front, rest') ∧
        rest.bytes = rest'.bytes := by
  by_cases hle : n ≤ r.bytes.length
  · have hcut : r.bytes = r.bytes.take n ++ r.bytes.drop n := (List.take_append_drop _ _).symm
    have hlen : (r.bytes.take n).length = n := List.length_take_of_le hle
    obtain ⟨rest, hread, hrest⟩ := readExact_spec hcut
    obtain ⟨rest', hread', hrest'⟩ := readExact_spec (h.symm.trans hcut)
    rw [hlen] at hread hread'
    exact Or.inr ⟨_, rest, rest', hread, hread', hrest.trans hrest'.symm⟩
  · have hnone {q : BufReader} (hq : q.bytes.length < n) : q.readExact n = none := by
      cases hread : q.readExact n with
      | none => rfl
      | some read =>
        obtain ⟨front, rest⟩ := read
        have hbytes := congrArg List.length (bytes_of_readExact hread)
        have hlen := length_of_readExact hread
        rw [List.length_append] at hbytes
        omega
    exact Or.inl ⟨hnone (Nat.not_le.mp hle), hnone (h ▸ Nat.not_le.mp hle)⟩

end BufReader

section UpTo

/-- The bytes up to and with the first `b`, or all of them. -/
def upTo (b : UInt8) : Bytes → Bytes
  | [] => []
  | c :: cs => if c = b then [c] else c :: upTo b cs

variable {b : UInt8} {cs : Bytes}

theorem upTo_append_of_findIdx? {pos : ℕ} (h : cs.findIdx? (· == b) = some pos) (more : Bytes) :
    upTo b (cs ++ more) = cs.take (pos + 1) := by
  induction cs generalizing pos with
  | nil => cases h
  | cons c cs ih =>
    rw [List.findIdx?_cons] at h
    change (if c = b then [c] else c :: upTo b (cs ++ more)) = c :: cs.take pos
    by_cases hc : c = b
    · rw [if_pos (beq_iff_eq.mpr hc)] at h
      cases h
      rw [if_pos hc, List.take_zero]
    · rw [if_neg (by simpa using hc)] at h
      obtain ⟨pos, hpos, rfl⟩ := Option.map_eq_some_iff.mp h
      rw [if_neg hc, ih hpos]

theorem upTo_append_of_notMem (h : b ∉ cs) (more : Bytes) :
    upTo b (cs ++ more) = cs ++ upTo b more := by
  induction cs with
  | nil => rfl
  | cons c cs ih =>
    rw [List.mem_cons, not_or] at h
    change (if c = b then [c] else c :: upTo b (cs ++ more)) = c :: (cs ++ upTo b more)
    rw [if_neg (Ne.symm h.1), ih h.2]

theorem upTo_prefix (b : UInt8) (cs : Bytes) : upTo b cs <+: cs := by
  induction cs with
  | nil => exact List.nil_prefix
  | cons c cs ih =>
    unfold upTo
    split_ifs
    · exact ⟨cs, rfl⟩
    · exact List.cons_prefix_cons.mpr ⟨rfl, ih⟩

theorem notMem_of_findIdx?_eq_none (h : cs.findIdx? (· == b) = none) : b ∉ cs := by
  rw [List.findIdx?_eq_none_iff] at h
  intro hb
  exact absurd (h b hb) (by simp)

end UpTo

namespace BufReader

/-- What `readUntil` finds, and what it leaves. -/
theorem readUntil_eq (b : UInt8) (r : BufReader) :
    (r.readUntil b).1 = upTo b r.bytes ∧ upTo b r.bytes ++ (r.readUntil b).2.bytes = r.bytes := by
  induction r with
  | done => exact ⟨rfl, rfl⟩
  | buffered c cs later ih =>
    unfold readUntil
    change _ ∧ upTo b (c :: cs ++ later.bytes) ++ _ = c :: cs ++ later.bytes
    cases hpos : (c :: cs).findIdx? (· == b) with
    | some pos =>
      have hup := upTo_append_of_findIdx? hpos later.bytes
      refine ⟨hup.symm, ?_⟩
      rw [hup]
      exact bytes_consume _ _ _ _
    | none =>
      have hup := upTo_append_of_notMem (notMem_of_findIdx?_eq_none hpos) later.bytes
      refine ⟨?_, ?_⟩
      · change c :: cs ++ (later.readUntil b).1 = upTo b (c :: cs ++ later.bytes)
        rw [hup, ih.1]
      · rw [hup, List.append_assoc]
        exact congrArg (c :: cs ++ ·) ih.2

end BufReader

end Dmtap.Lib
