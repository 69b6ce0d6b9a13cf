import Dmtap.Lib.Bytes

/-! Encodings of text that keep ASCII: such a character is its own byte, and the bytes of any
other character are 128 or more. Separators are then found in the bytes where they stand in the
text. -/
namespace Dmtap.Lib

/-- A property of the characters of a text is decided on these, not on all characters there are. -/
instance decidableChars {P : Char → Prop} [DecidablePred P] (cs : List Char) :
    Decidable (∀ c ∈ cs, P c) := List.decidableBAll P cs

structure KeepsAscii (e : Char → Bytes) : Prop where
  ascii : ∀ c : Char, c.toNat < 128 → e c = [UInt8.ofNat c.toNat]
  other : ∀ c : Char, 128 ≤ c.toNat → ∀ b ∈ e c, 128 ≤ b.toNat
  ne_nil : ∀ c, e c ≠ []

section Split
variable {α : Type} [BEq α] [LawfulBEq α] {s : α}

theorem splitOn_append_of_not_mem {a : List α} (ha : s ∉ a) (b : List α) :
    (a ++ b).splitOn s = (b.splitOn s).modifyHead (a ++ ·) := by
  induction a with
  | nil =>
    have hid : (fun x : List α => [] ++ x) = id := rfl
    rw [List.nil_append, hid, List.modifyHead_id]
    rfl
  | cons x a ih =>
    obtain ⟨hx, ha⟩ := not_or.mp (mt List.mem_cons.mpr ha)
    rw [List.cons_append, List.splitOn_cons_eq_if_modifyHead, if_neg (by simpa using Ne.symm hx),
      ih ha, List.modifyHead_modifyHead]
    rfl

omit [LawfulBEq α] in
theorem subset_of_mem_splitOn {l piece : List α} (h : piece ∈ l.splitOn s) : piece ⊆ l := by
  induction l generalizing piece with
  | nil =>
    rw [List.splitOn_nil, List.mem_singleton] at h
    rw [h]
    exact List.nil_subset _
  | cons x l ih =>
    rw [List.splitOn_cons_eq_if_modifyHead] at h
    by_cases hx : (x == s) = true
    · rw [if_pos hx] at h
      rcases List.mem_cons.mp h with rfl | h
      · exact List.nil_subset _
      · exact List.subset_cons_of_subset x (ih h)
    · rw [if_neg hx] at h
      obtain ⟨first, pieces, hsplit⟩ := List.exists_cons_of_ne_nil (List.splitOn_ne_nil s l)
      rw [hsplit] at h ih
      rcases List.mem_cons.mp h with rfl | h
      · exact List.cons_subset_cons x (ih List.mem_cons_self)
      · exact List.subset_cons_of_subset x (ih (List.mem_cons_of_mem first h))

theorem not_mem_of_mem_splitOn {l piece : List α} (h : piece ∈ l.splitOn s) : s ∉ piece := by
  induction l generalizing piece with
  | nil =>
    rw [List.splitOn_nil, List.mem_singleton] at h
    rw [h]
    exact List.not_mem_nil
  | cons x l ih =>
    rw [List.splitOn_cons_eq_if_modifyHead] at h
    by_cases hx : (x == s) = true
    · rw [if_pos hx] at h
      rcases List.mem_cons.mp h with rfl | h
      · exact List.not_mem_nil
      · exact ih h
    · rw [if_neg hx] at h
      obtain ⟨first, pieces, hsplit⟩ := List.exists_cons_of_ne_nil (List.splitOn_ne_nil s l)
      rw [hsplit] at h ih
      rcases List.mem_cons.mp h with rfl | h
      · refine mt List.mem_cons.mp (not_or.mpr ⟨?_, ih List.mem_cons_self⟩)
        intro hs
        exact hx (by rw [hs, BEq.rfl])
      · exact ih (List.mem_cons_of_mem first h)

theorem mem_splitOn_of_ne {l : List α} {x : α} (hx : x ∈ l) (hne : x ≠ s) :
    ∃ piece ∈ l.splitOn s, x ∈ piece := by
  induction l with
  | nil => cases hx
  | cons y l ih =>
    rw [List.splitOn_cons_eq_if_modifyHead]
    by_cases hy : (y == s) = true
    · rw [if_pos hy]
      have hxl : x ∈ l := (List.mem_cons.mp hx).resolve_left fun h => hne (h.trans (eq_of_beq hy))
      obtain ⟨piece, hpiece, hxp⟩ := ih hxl
      exact ⟨piece, List.mem_cons_of_mem [] hpiece, hxp⟩
    · rw [if_neg hy]
      obtain ⟨first, pieces, hsplit⟩ := List.exists_cons_of_ne_nil (List.splitOn_ne_nil s l)
      rw [hsplit] at ih ⊢
      rw [List.modifyHead_cons]
      rcases List.mem_cons.mp hx with rfl | hx
      · exact ⟨x :: first, List.mem_cons_self, List.mem_cons_self⟩
      · obtain ⟨piece, hpiece, hxp⟩ := ih hx
        rcases List.mem_cons.mp hpiece with rfl | hpiece
        · exact ⟨y :: piece, List.mem_cons_self, List.mem_cons_of_mem y hxp⟩
        · exact ⟨piece, List.mem_cons_of_mem _ hpiece, hxp⟩

/-- A separator at the end leaves an empty last piece. -/
theorem nil_mem_splitOn {l : List α} (h : l.getLast? = some s) : [] ∈ l.splitOn s := by
  obtain ⟨front, rfl⟩ := List.getLast?_eq_some_iff.mp h
  rw [List.splitOn_append_cons_self, List.splitOn_nil]
  exact List.mem_append_right _ List.mem_cons_self

theorem takeWhile_append_of_mem {a : List α} (ha : s ∈ a) (b : List α) :
    (a ++ b).takeWhile (· != s) = a.takeWhile (· != s) := by
  induction a with
  | nil => exact absurd ha List.not_mem_nil
  | cons x a ih =>
    rw [List.cons_append, List.takeWhile_cons, List.takeWhile_cons]
    by_cases hx : x = s
    · rw [if_neg (by simp [hx]), if_neg (by simp [hx])]
    · have ha : s ∈ a := (List.mem_cons.mp ha).resolve_left (Ne.symm hx)
      rw [ih ha]

end Split

theorem toNat_asciiCode {c : Char} (hc : c.toNat < 128) :
    (UInt8.ofNat c.toNat).toNat = c.toNat := by
  rw [UInt8.toNat_ofNat']
  omega

namespace KeepsAscii
variable {e : Char → Bytes} (he : KeepsAscii e) {c : Char} (hc : c.toNat < 128)
include he hc

theorem mem_iff {d : Char} : UInt8.ofNat c.toNat ∈ e d ↔ d = c := by
  constructor
  · intro h
    by_cases hd : d.toNat < 128
    · rw [he.ascii d hd, List.mem_singleton] at h
      have hcode := congrArg UInt8.toNat h
      rw [toNat_asciiCode hc, toNat_asciiCode hd] at hcode
      exact Char.toNat_inj.mp hcode.symm
    · have hge := he.other d (Nat.le_of_not_lt hd) _ h
      rw [toNat_asciiCode hc] at hge
      omega
  · rintro rfl
    rw [he.ascii d hc]
    exact List.mem_singleton_self _

theorem mem_flatMap_iff {cs : List Char} : UInt8.ofNat c.toNat ∈ cs.flatMap e ↔ c ∈ cs := by
  rw [List.mem_flatMap]
  constructor
  · rintro ⟨d, hd, hmem⟩
    rwa [← (he.mem_iff hc).mp hmem]
  · intro h
    exact ⟨c, h, (he.mem_iff hc).mpr rfl⟩

theorem splitOn_flatMap (cs : List Char) :
    (cs.flatMap e).splitOn (UInt8.ofNat c.toNat) = (cs.splitOn c).map (List.flatMap e) := by
  induction cs with
  | nil => rfl
  | cons d cs ih =>
    rw [List.flatMap_cons, List.splitOn_cons_eq_if_modifyHead]
    by_cases hd : d = c
    · subst hd
      rw [he.ascii d hc, List.singleton_append, List.splitOn_cons_eq_if_modifyHead,
        if_pos (beq_self_eq_true _), if_pos (beq_self_eq_true _), ih]
      rfl
    · rw [splitOn_append_of_not_mem (fun h => hd ((he.mem_iff hc).mp h)), ih,
        if_neg (by simpa using hd)]
      cases cs.splitOn c with
      | nil => rfl
      | cons l ls => rfl

theorem takeWhile_flatMap (cs : List Char) :
    (cs.flatMap e).takeWhile (· != UInt8.ofNat c.toNat) =
      (cs.takeWhile (· != c)).flatMap e := by
  induction cs with
  | nil => rfl
  | cons d cs ih =>
    rw [List.flatMap_cons, List.takeWhile_cons]
    by_cases hd : d = c
    · subst hd
      rw [he.ascii d hc, List.singleton_append, List.takeWhile_cons, if_neg (by simp),
        if_neg (by simp)]
      rfl
    · have hkeep : ∀ b ∈ e d, (b != UInt8.ofNat c.toNat) = true := by
        intro b hb
        rw [bne_iff_ne]
        rintro rfl
        exact hd ((he.mem_iff hc).mp hb)
      rw [List.takeWhile_append_of_pos hkeep, ih, if_pos (by simpa using hd), List.flatMap_cons]

theorem head?_flatMap_iff {cs : List Char} :
    (cs.flatMap e).head? = some (UInt8.ofNat c.toNat) ↔ cs.head? = some c := by
  cases cs with
  | nil => simp
  | cons d cs =>
    obtain ⟨b, bs, hb⟩ := List.exists_cons_of_ne_nil (he.ne_nil d)
    rw [List.flatMap_cons, hb, List.cons_append, List.head?_cons, List.head?_cons,
      Option.some.injEq, Option.some.injEq]
    constructor
    · rintro rfl
      exact (he.mem_iff hc).mp (hb ▸ List.mem_cons_self)
    · rintro rfl
      rw [he.ascii d hc] at hb
      exact (List.cons.inj hb).1.symm

/-- An ASCII byte at the end is the last character. -/
theorem exists_of_flatMap_eq_append {cs : List Char} {b : Bytes}
    (h : cs.flatMap e = b ++ [UInt8.ofNat c.toNat]) : ∃ cs' : List Char, cs'.flatMap e = b := by
  rcases List.eq_nil_or_concat cs with rfl | ⟨cs', d, rfl⟩
  · simp at h
  · refine ⟨cs', ?_⟩
    rw [List.concat_eq_append, List.flatMap_append, List.flatMap_singleton] at h
    obtain ⟨front, last, hd⟩ := (e d).eq_nil_or_concat.resolve_left (he.ne_nil d)
    rw [hd, List.concat_eq_append, ← List.append_assoc] at h
    obtain ⟨hfront, hlast⟩ := List.append_inj' h rfl
    have hmem : UInt8.ofNat c.toNat ∈ e d := by
      rw [hd, List.concat_eq_append, List.cons.inj hlast |>.1]
      exact List.mem_append_right _ (List.mem_singleton_self _)
    obtain rfl := (he.mem_iff hc).mp hmem
    rw [he.ascii d hc] at hd
    have hnil : front = [] := by
      have hlen := congrArg List.length hd
      simpa using hlen
    rwa [hnil, List.append_nil] at hfront

end KeepsAscii

private theorem le_toNat_ofNat {n : ℕ} (hlo : 128 ≤ n) (hhi : n < 256) :
    128 ≤ (UInt8.ofNat n).toNat := by
  rw [UInt8.toNat_ofNat']
  omega

theorem keepsAscii_utf8 : KeepsAscii String.utf8EncodeChar where
  ascii c hc := by
    have hle : c.val.toNat ≤ 127 := Nat.le_of_lt_succ hc
    unfold String.utf8EncodeChar
    dsimp only
    rw [if_pos hle]
    rfl
  other c hc b hb := by
    unfold String.utf8EncodeChar at hb
    dsimp only at hb
    rw [if_neg (show ¬ c.val.toNat ≤ 127 from Nat.not_le.mpr hc)] at hb
    split_ifs at hb <;> simp only [List.mem_cons, List.not_mem_nil, or_false] at hb
    · rcases hb with rfl | rfl <;> exact le_toNat_ofNat (by omega) (by omega)
    · rcases hb with rfl | rfl | rfl <;> exact le_toNat_ofNat (by omega) (by omega)
    · rcases hb with rfl | rfl | rfl | rfl <;> exact le_toNat_ofNat (by omega) (by omega)
  ne_nil _ := String.utf8EncodeChar_ne_nil

/-- A character outside of ASCII is not the capital of one inside. -/
theorem toNat_lt_of_toLower {c : Char} (h : c.toLower.toNat < 128) : c.toNat < 128 := by
  unfold Char.toLower at h
  split at h
  · rename_i hupper
    exact (UInt32.le_iff_toNat_le.mp hupper.2).trans_lt (by decide)
  · exact h

/-- A character's Latin-1 byte; those past Latin-1 share its last. -/
def latin1Byte (c : Char) : UInt8 := UInt8.ofNat (min c.toNat 255)

theorem keepsAscii_latin1 : KeepsAscii fun c => [latin1Byte c] where
  ascii c hc := by
    have hmin : min c.toNat 255 = c.toNat := by omega
    rw [latin1Byte, hmin]
  other c hc b hb := by
    obtain rfl := List.mem_singleton.mp hb
    rw [latin1Byte, UInt8.toNat_ofNat']
    omega
  ne_nil _ := List.cons_ne_nil _ _

end Dmtap.Lib
