import Mathlib.Data.List.Induction
import Mathlib.Tactic.Ring

/-! Digits of one width regrouped into digits of another through a register. The register is a word
that may keep bits already taken above those that are not. -/
namespace Dmtap.Lib

/-- The number that digits of `w` bits spell, most significant digit first. -/
def spelled (w : ℕ) (digits : List ℕ) : ℕ := digits.foldl (fun n x => n * 2 ^ w + x) 0

theorem spelled_concat (w : ℕ) (digits : List ℕ) (x : ℕ) :
    spelled w (digits ++ [x]) = spelled w digits * 2 ^ w + x := by
  simp [spelled]

/-- Digits that fit their width are determined by their number and the number they spell. -/
theorem spelled_inj {w : ℕ} {l r : List ℕ} (hl : ∀ x ∈ l, x < 2 ^ w) (hr : ∀ x ∈ r, x < 2 ^ w)
    (hlength : l.length = r.length) (h : spelled w l = spelled w r) : l = r := by
  induction l using List.reverseRecOn generalizing r with
  | nil => exact (List.eq_nil_of_length_eq_zero hlength.symm).symm
  | append_singleton l x ih =>
    cases r using List.reverseRecOn with
    | nil => simp at hlength
    | append_singleton r y =>
      have hx : x < 2 ^ w := hl x (by simp)
      have hy : y < 2 ^ w := hr y (by simp)
      rw [spelled_concat, spelled_concat] at h
      have hdigit : x = y := by
        have hmod := congrArg (· % 2 ^ w) h
        simpa [Nat.mul_add_mod_of_lt, hx, hy, Nat.mul_add_mod_self_right, Nat.mod_eq_of_lt] using hmod
      have hrest : spelled w l = spelled w r := by
        rw [hdigit] at h
        exact Nat.eq_of_mul_eq_mul_right (Nat.two_pow_pos w) (Nat.add_right_cancel h)
      have hlength' : l.length = r.length := by simpa using hlength
      rw [hdigit, ih (fun z hz => hl z (List.mem_append_left _ hz))
        (fun z hz => hr z (List.mem_append_left _ hz)) hlength' hrest]

/-- Digits of `a` bits have been read and digits of `w` bits written. The low `bits` of the register
are read and not yet written. -/
structure Regroups (w a acc bits : ℕ) (out ins : List ℕ) : Prop where
  number : spelled w out * 2 ^ bits + acc % 2 ^ bits = spelled a ins
  digits : ∀ x ∈ out, x < 2 ^ w
  length : w * out.length + bits = a * ins.length

namespace Regroups
variable {w a acc bits : ℕ} {out ins : List ℕ}

theorem start (w a acc : ℕ) : Regroups w a acc 0 [] [] where
  number := by simp [spelled, Nat.mod_one]
  digits := by simp
  length := rfl

/-- A digit is shifted in. The register of `m` bits may lose what it holds above those it needs. -/
theorem read (h : Regroups w a acc bits out ins) {m x : ℕ} (hx : x < 2 ^ a) (hm : bits + a ≤ m) :
    Regroups w a ((acc * 2 ^ a + x) % 2 ^ m) (bits + a) out (ins ++ [x]) where
  number := by
    have hdvd : 2 ^ (bits + a) ∣ 2 ^ m := Nat.pow_dvd_pow 2 hm
    have hdiv : (acc * 2 ^ a + x) / 2 ^ a = acc := by
      rw [Nat.mul_comm, Nat.mul_add_div (Nat.two_pow_pos a), Nat.div_eq_of_lt hx, Nat.add_zero]
    have hlow : (acc * 2 ^ a + x) % 2 ^ (bits + a) = acc % 2 ^ bits * 2 ^ a + x := by
      rw [Nat.add_comm bits, pow_add, Nat.mod_mul, hdiv, Nat.mul_add_mod_of_lt hx]
      ring
    rw [Nat.mod_mod_of_dvd _ hdvd, hlow, spelled_concat, ← h.number, pow_add]
    ring
  digits := h.digits
  length := by
    rw [List.length_append, List.length_singleton, Nat.mul_add, Nat.mul_one, ← h.length,
      Nat.add_assoc]

/-- The digit above the last `bits - w` bits is written. -/
theorem write (h : Regroups w a acc bits out ins) (hw : w ≤ bits) :
    Regroups w a acc (bits - w) (out ++ [acc / 2 ^ (bits - w) % 2 ^ w]) ins where
  number := by
    have hpow : 2 ^ bits = 2 ^ (bits - w) * 2 ^ w := by
      rw [← pow_add, Nat.sub_add_cancel hw]
    have hsplit : acc % 2 ^ bits =
        acc % 2 ^ (bits - w) + 2 ^ (bits - w) * (acc / 2 ^ (bits - w) % 2 ^ w) := by
      rw [hpow, Nat.mod_mul]
    rw [spelled_concat, ← h.number, hsplit, hpow]
    ring
  digits := by
    have hdigit : acc / 2 ^ (bits - w) % 2 ^ w < 2 ^ w := Nat.mod_lt _ (Nat.two_pow_pos w)
    simpa [or_imp, forall_and] using And.intro h.digits hdigit
  length := by
    have hlength := h.length
    rw [List.length_append, List.length_singleton, Nat.mul_add, Nat.mul_one]
    omega

/-- Digits that are regrouped and regrouped back, with no bits left over, are themselves. -/
theorem inverse {acc' : ℕ} {back : List ℕ} (h : Regroups w a acc 0 out ins)
    (h' : Regroups a w acc' 0 back out) (ha : 0 < a) (hins : ∀ x ∈ ins, x < 2 ^ a) :
    back = ins := by
  have hnumber : spelled a back = spelled a ins := by
    have hback := h'.number
    have hout := h.number
    simp only [pow_zero, Nat.mod_one, Nat.mul_one, Nat.add_zero] at hback hout
    exact hback.trans hout
  have hlength : a * back.length = a * ins.length := h'.length.trans h.length
  exact spelled_inj h'.digits hins (Nat.eq_of_mul_eq_mul_left ha hlength) hnumber

end Regroups
end Dmtap.Lib
