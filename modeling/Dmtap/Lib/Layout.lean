import Dmtap.Lib.Bytes

/-! Fixed layouts: values that take up a fixed number of bytes, field after field. -/
namespace Dmtap.Lib

/-- Byte strings of length `n`. -/
abbrev BytesOf (n : ℕ) := { b : Bytes // b.length = n }

namespace BytesOf

/-- The `w` bytes from position `i` on. -/
def piece {n : ℕ} (b : BytesOf n) (i w : ℕ) (h : i + w ≤ n) : BytesOf w :=
  ⟨(b.val.drop i).take w, by
    rw [List.length_take, List.length_drop, b.property]
    omega⟩

/-- The byte at position `i`. -/
def byte {n : ℕ} (b : BytesOf n) (i : ℕ) (h : i < n) : UInt8 :=
  b.val.get ⟨i, by rw [b.property]; exact h⟩

theorem piece_one {n : ℕ} (b : BytesOf n) {i : ℕ} (h : i < n) :
    (b.piece i 1 (by omega)).val = [b.byte i h] := by
  have hi : i < b.val.length := by
    rw [b.property]
    exact h
  change (b.val.drop i).take 1 = [b.val.get ⟨i, hi⟩]
  rw [List.drop_eq_getElem_cons hi]
  rfl

/-- The front of a byte string and the piece behind it are a longer front. -/
theorem front_append {n : ℕ} (b : BytesOf n) {v w : ℕ} (h : v + w ≤ n) :
    (b.piece 0 v (by omega)).val ++ (b.piece v w h).val = (b.piece 0 (v + w) (by omega)).val := by
  change (b.val.drop 0).take v ++ (b.val.drop v).take w = (b.val.drop 0).take (v + w)
  rw [List.drop_zero, List.take_add]

theorem piece_all {n : ℕ} (b : BytesOf n) : (b.piece 0 n (by omega)).val = b.val := by
  change (b.val.drop 0).take n = b.val
  rw [List.drop_zero, List.take_of_length_le b.property.le]

/-- A field is read where it was written: behind the fields before it. -/
theorem piece_eq {n i w : ℕ} {b : BytesOf n} (before : Bytes) (field : BytesOf w) (after : Bytes)
    (hb : b.val = before ++ (field.val ++ after)) (hi : before.length = i) (h : i + w ≤ n) :
    b.piece i w h = field := by
  apply Subtype.ext
  change (b.val.drop i).take w = field.val
  rw [hb, List.drop_left' hi, List.take_left' field.property]

/-- A byte is read where it was written. -/
theorem byte_eq {n i : ℕ} {b : BytesOf n} (before : Bytes) (x : UInt8) (after : Bytes)
    (hb : b.val = before ++ ([x] ++ after)) (hi : before.length = i) (h : i < n) :
    b.byte i h = x := by
  have hpiece := piece_eq before (⟨[x], rfl⟩ : BytesOf 1) after hb hi (by omega)
  have hval := congrArg Subtype.val hpiece
  rw [piece_one b h] at hval
  exact (List.cons.inj hval).1

theorem toBe_ofBe {w : ℕ} (b : BytesOf w) : toBe w (ofBe b.val) = b.val := by
  have h := Lib.toBe_ofBe b.val
  rw [b.property] at h
  exact h

theorem ofBe_lt {w : ℕ} (b : BytesOf w) : ofBe b.val < 256 ^ w := by
  have h := Lib.ofBe_lt b.val
  rw [b.property] at h
  exact h

end BytesOf

/-- A number in `w` bytes. -/
def beBytes (w n : ℕ) : BytesOf w := ⟨toBe w n, length_toBe w n⟩

/-- A codec of values that take up `n` bytes: what is read is what was written by a well-formed
value. -/
structure FixedCodec {ε α : Type} (n : ℕ) (put : α → Bytes) (get : Bytes → Except ε α)
    (wf : α → Prop) : Prop where
  length : ∀ a, wf a → (put a).length = n
  read : ∀ a, wf a → get (put a) = .ok a
  written : ∀ b a, get b = .ok a → wf a ∧ put a = b

/-- Only byte strings of the right length are read. -/
theorem FixedCodec.length_of_get {ε α : Type} {n : ℕ} {put : α → Bytes} {get : Bytes → Except ε α}
    {wf : α → Prop} (h : FixedCodec n put get wf) {b : Bytes} {a : α} (hb : get b = .ok a) :
    b.length = n := by
  obtain ⟨hwf, rfl⟩ := h.written b a hb
  exact h.length a hwf

end Dmtap.Lib
