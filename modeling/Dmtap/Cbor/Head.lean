import Mathlib.Data.FinEnum
import Dmtap.Lib.Reader
import Dmtap.Cbor.Value

/-! Item heads: the shortest-form writer and the reader that insists on it. The reader's
cursor is represented by the bytes not yet read; `usize` is 64 bits wide. -/
namespace Dmtap.Cbor
open Dmtap.Lib

/-- The head of an item: major type in the top three bits, then the shortest-form argument. -/
def writeHead (major : UInt8) (arg : UInt64) : Bytes :=
  let m := major <<< 5
  if arg.toNat < 24 then [m ||| arg.toUInt8]
  else if arg.toNat ≤ 0xff then [m ||| 24, arg.toUInt8]
  else if arg.toNat ≤ 0xffff then (m ||| 25) :: toBe 2 arg.toNat
  else if arg.toNat ≤ 0xffffffff then (m ||| 26) :: toBe 4 arg.toNat
  else (m ||| 27) :: toBe 8 arg.toNat

abbrev Decoder := Reader Bytes CborError

namespace Decoder

def byte : Decoder UInt8 := do
  match ← get with
  | [] => throw .malformed
  | b :: rest => set rest; return b

def take (n : ℕ) : Decoder Bytes := do
  let s ← get
  if n ≤ s.length then
    set (s.drop n)
    return s.take n
  else throw .malformed

/-- An argument of `w` bytes that does not fit the next narrower form, whose largest
value is `below`. -/
def wideArgument (w below : ℕ) : Decoder UInt64 := do
  let v := ofBe (← take w)
  if v ≤ below then throw .nonShortestForm else return UInt64.ofNat v

/-- The argument of a head with additional information `ai`. -/
def argument (ai : UInt8) : Decoder UInt64 := do
  if ai ≤ 23 then return ai.toUInt64
  else if ai = 24 then
    let v ← byte
    if v < 24 then throw .nonShortestForm else return v.toUInt64
  else if ai = 25 then wideArgument 2 0xff
  else if ai = 26 then wideArgument 4 0xffff
  else if ai = 27 then wideArgument 8 0xffffffff
  else if ai ≤ 30 then throw .malformed
  else throw .indefiniteLength

@[simp] theorem byte_run_cons (b : UInt8) (s : Bytes) : byte.run (b :: s) = .ok (b, s) := rfl

@[simp] theorem byte_run_nil : byte.run [] = .error .malformed := rfl

theorem byte_run_eq_ok {s t : Bytes} {b : UInt8} : byte.run s = .ok (b, t) ↔ s = b :: t := by
  cases s with
  | nil => simp
  | cons x s => simp

theorem take_run (n : ℕ) (s : Bytes) :
    (take n).run s = if n ≤ s.length then .ok (s.take n, s.drop n) else .error .malformed := by
  have h : (take n).run s = (if n ≤ s.length then do
      set (s.drop n)
      return s.take n
    else throw .malformed : Decoder Bytes).run s := rfl
  rw [h]
  split_ifs <;> rfl

theorem take_run_append {n : ℕ} {a : Bytes} (h : a.length = n) (t : Bytes) :
    (take n).run (a ++ t) = .ok (a, t) := by
  subst h
  simp [take_run]

theorem take_run_eq_ok {n : ℕ} {s t a : Bytes} :
    (take n).run s = .ok (a, t) ↔ a.length = n ∧ s = a ++ t := by
  constructor
  · intro h
    rw [take_run] at h
    split_ifs at h with hn
    have hp := Prod.mk.inj (Except.ok.inj h)
    rw [← hp.1, ← hp.2]
    exact ⟨List.length_take_of_le hn, (List.take_append_drop n s).symm⟩
  · rintro ⟨hn, rfl⟩
    exact take_run_append hn t

theorem wideArgument_run_append {w below : ℕ} {n : UInt64} (hw : n.toNat < 256 ^ w)
    (hb : below < n.toNat) (t : Bytes) :
    (wideArgument w below).run (toBe w n.toNat ++ t) = .ok (n, t) := by
  rw [wideArgument, Reader.run_bind_ok (take_run_append (length_toBe w _) t), ofBe_toBe _ _ hw,
    if_neg (by omega), UInt64.ofNat_toNat]
  rfl

theorem wideArgument_run_eq_ok {w below : ℕ} {s t : Bytes} {n : UInt64} (hw : 256 ^ w ≤ 2 ^ 64)
    (h : (wideArgument w below).run s = .ok (n, t)) :
    s = toBe w n.toNat ++ t ∧ n.toNat < 256 ^ w ∧ below < n.toNat := by
  obtain ⟨a, u, ha, hn⟩ := Reader.run_bind_eq_ok.mp h
  obtain ⟨hl, rfl⟩ := take_run_eq_ok.mp ha
  have hlt := ofBe_lt a
  rw [hl] at hlt
  dsimp only at hn
  split_ifs at hn with hb
  · cases hn
  · have hp := Prod.mk.inj (Except.ok.inj hn)
    have hv : n.toNat = ofBe a := by
      rw [← hp.1, UInt64.toNat_ofNat', Nat.mod_eq_of_lt (by omega)]
    rw [hv, ← hp.2, ← hl, toBe_ofBe]
    exact ⟨rfl, by rw [hl]; exact hlt, by omega⟩

end Decoder

private theorem head_bits : ∀ major : UInt8, major < 8 → ∀ ai : UInt8, ai < 32 →
    ((major <<< 5 ||| ai) >>> 5 = major ∧ (major <<< 5 ||| ai) &&& 0x1f = ai) := by
  decide +kernel

private theorem head_byte : ∀ ib : UInt8, (ib >>> 5) <<< 5 ||| (ib &&& 0x1f) = ib := by
  decide +kernel

private theorem toUInt8_toUInt64 {n : UInt64} (h : n.toNat ≤ 0xff) :
    n.toUInt8.toNat = n.toNat ∧ n.toUInt8.toUInt64 = n := by
  have h8 : n.toUInt8.toNat = n.toNat := by
    rw [UInt64.toNat_toUInt8]
    omega
  refine ⟨h8, ?_⟩
  apply UInt64.toNat_inj.mp
  rw [UInt8.toNat_toUInt64, h8]

/-- What a head written by `writeHead` looks like to the reader: one byte that splits into
the major type and the additional information, then the argument that goes with it. -/
theorem writeHead_reads (major : UInt8) (hm : major < 8) (n : UInt64) :
    ∃ ib tail, writeHead major n = ib :: tail ∧ ib >>> 5 = major ∧
      ∀ t, (Decoder.argument (ib &&& 0x1f)).run (tail ++ t) = .ok (n, t) := by
  have hbits := head_bits major hm
  have hn := n.toNat_lt
  unfold writeHead
  dsimp only
  split_ifs with h1 h2 h3 h4
  · obtain ⟨h8, hback⟩ := toUInt8_toUInt64 (n := n) (by omega)
    have hai : n.toUInt8 < 32 := by rw [UInt8.lt_iff_toNat_lt, h8]; simp; omega
    have h23 : n.toUInt8 ≤ 23 := by rw [UInt8.le_iff_toNat_le, h8]; simp; omega
    refine ⟨_, _, rfl, (hbits _ hai).1, fun t => ?_⟩
    rw [(hbits _ hai).2]
    simp only [Decoder.argument, h23, if_true, hback]
    rfl
  · obtain ⟨h8, hback⟩ := toUInt8_toUInt64 h2
    have hge : ¬ n.toUInt8 < 24 := by rw [UInt8.lt_iff_toNat_lt, h8]; exact h1
    refine ⟨_, _, rfl, (hbits 24 (by decide)).1, fun t => ?_⟩
    rw [(hbits 24 (by decide)).2]
    change (do let v ← Decoder.byte; if v < 24 then throw .nonShortestForm else return v.toUInt64 :
      Decoder UInt64).run (n.toUInt8 :: t) = _
    rw [Reader.run_bind_ok (Decoder.byte_run_cons _ _), if_neg hge, hback]
    rfl
  · refine ⟨_, _, rfl, (hbits 25 (by decide)).1, fun t => ?_⟩
    rw [(hbits 25 (by decide)).2]
    exact Decoder.wideArgument_run_append (by omega) (by omega) t
  · refine ⟨_, _, rfl, (hbits 26 (by decide)).1, fun t => ?_⟩
    rw [(hbits 26 (by decide)).2]
    exact Decoder.wideArgument_run_append (by omega) (by omega) t
  · refine ⟨_, _, rfl, (hbits 27 (by decide)).1, fun t => ?_⟩
    rw [(hbits 27 (by decide)).2]
    exact Decoder.wideArgument_run_append (by omega) (by omega) t

theorem writeHead_injective {major : UInt8} (hm : major < 8) {m n : UInt64}
    (h : writeHead major m = writeHead major n) : m = n := by
  obtain ⟨ib, tail, hw, -, hread⟩ := writeHead_reads major hm m
  obtain ⟨ib', tail', hw', -, hread'⟩ := writeHead_reads major hm n
  rw [hw, hw'] at h
  obtain ⟨rfl, rfl⟩ := List.cons.inj h
  have hok := hread []
  rw [hread' []] at hok
  exact (Prod.mk.inj (Except.ok.inj hok)).1.symm

/-- The reader accepts no head but the shortest one. -/
theorem writeHead_of_argument {ib : UInt8} (m : UInt8) (hm : (ib >>> 5).toNat = m.toNat)
    {s t : Bytes} {n : UInt64} (h : (Decoder.argument (ib &&& 0x1f)).run s = .ok (n, t)) :
    ib :: s = writeHead m n ++ t := by
  have hib := head_byte ib
  rw [UInt8.toNat_inj.mp hm] at hib
  generalize ib &&& 0x1f = ai at hib h
  rw [← hib]
  unfold Decoder.argument at h
  split_ifs at h with h23 h24 h25 h26 h27 h30
  · obtain ⟨hn, ht⟩ := Prod.mk.inj (Except.ok.inj h)
    have h23' : ai.toNat ≤ 23 := h23
    have hlt : n.toNat < 24 := by
      rw [← hn, UInt8.toNat_toUInt64]
      omega
    have hback : n.toUInt8 = ai := by rw [← hn]; simp
    rw [writeHead, if_pos hlt, hback, ht]
    rfl
  · obtain ⟨v, u, hv, hr⟩ := Reader.run_bind_eq_ok.mp h
    rw [Decoder.byte_run_eq_ok] at hv
    subst hv
    split_ifs at hr with hlt
    · cases hr
    · obtain ⟨hn, ht⟩ := Prod.mk.inj (Except.ok.inj hr)
      have h1 : ¬ n.toNat < 24 := by rw [← hn, UInt8.toNat_toUInt64]; exact hlt
      have h2 : n.toNat ≤ 0xff := by
        have := v.toNat_lt
        rw [← hn, UInt8.toNat_toUInt64]
        omega
      have hback : n.toUInt8 = v := by rw [← hn]; simp
      rw [writeHead, if_neg h1, if_pos h2, hback, ht, h24]
      rfl
  · obtain ⟨rfl, hlt, hgt⟩ := Decoder.wideArgument_run_eq_ok (by decide) h
    rw [writeHead, if_neg (by omega), if_neg (by omega), if_pos (by omega), h25]
    rfl
  · obtain ⟨rfl, hlt, hgt⟩ := Decoder.wideArgument_run_eq_ok (by decide) h
    rw [writeHead, if_neg (by omega), if_neg (by omega), if_neg (by omega), if_pos (by omega), h26]
    rfl
  · obtain ⟨rfl, hlt, hgt⟩ := Decoder.wideArgument_run_eq_ok (by decide) h
    rw [writeHead, if_neg (by omega), if_neg (by omega), if_neg (by omega), if_neg (by omega), h27]
    rfl
  · cases h
  · cases h

end Dmtap.Cbor
