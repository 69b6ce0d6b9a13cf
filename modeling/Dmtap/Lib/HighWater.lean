import Mathlib.Data.List.Basic
import Mathlib.Order.Bounds.Defs
import Mathlib.Order.Defs.Unbundled

/-! High-water marks. A machine keeps one mark per key; a call about a key is refused, or sets
the mark of that key to a value that is in the required relation to the mark before. -/
namespace Dmtap.Lib

/-- A machine with a mark per key, and calls that each present one value for one key. -/
structure Keeper (σ ι ε α κ ν : Type) where
  mark : σ → κ → Option ν
  key : ι → κ
  value : ι → ν
  call : σ → ι → Except ε α × σ

namespace Keeper
variable {σ ι ε α κ ν : Type} [DecidableEq κ] (K : Keeper σ ι ε α κ ν)

/-- The state after a sequence of calls. -/
def run (s : σ) : List ι → σ
  | [] => s
  | i :: calls => run (K.call s i).2 calls

/-- The values accepted for one key along a sequence of calls, in order. -/
def accepted (s : σ) (k : κ) : List ι → List ν
  | [] => []
  | i :: calls =>
    (if (K.call s i).1.isOk ∧ K.key i = k then [K.value i] else []) ++
      accepted (K.call s i).2 k calls

/-- What one call may do: nothing when it is refused, and otherwise one mark moves, from a value
that is related by `rel` to the new one. -/
structure Raises (rel : ν → ν → Prop) : Prop where
  refused : ∀ s i e, (K.call s i).1 = .error e → (K.call s i).2 = s
  above : ∀ s i a, (K.call s i).1 = .ok a → ∀ m ∈ K.mark s (K.key i), rel m (K.value i)
  moved : ∀ s i a, (K.call s i).1 = .ok a → ∀ k,
    K.mark (K.call s i).2 k = if k = K.key i then some (K.value i) else K.mark s k

/-- What holds after any sequence of calls: a mark is the greatest accepted value of its key, the
accepted values of a key rise, a refused call changes nothing, and no call moves another mark. -/
structure KeepsGreatest [LE ν] (rel : ν → ν → Prop) (start : σ) : Prop where
  greatest : ∀ calls k m,
    K.mark (K.run start calls) k = some m ↔ IsGreatest {v | v ∈ K.accepted start k calls} m
  rises : ∀ calls k, (K.accepted start k calls).Pairwise rel
  refused : ∀ calls i e, (K.call (K.run start calls) i).1 = .error e →
    (K.call (K.run start calls) i).2 = K.run start calls
  others : ∀ calls i k, k ≠ K.key i →
    K.mark (K.call (K.run start calls) i).2 k = K.mark (K.run start calls) k

variable {K} {rel : ν → ν → Prop}

/-- It is enough to split every call into its two outcomes. -/
theorem Raises.of_cases (h : ∀ s i, (∃ e, K.call s i = (.error e, s)) ∨
    ∃ a s', K.call s i = (.ok a, s') ∧ (∀ m ∈ K.mark s (K.key i), rel m (K.value i)) ∧
      ∀ k, K.mark s' k = if k = K.key i then some (K.value i) else K.mark s k) :
    K.Raises rel := by
  constructor
  · intro s i e he
    rcases h s i with ⟨e', hcall⟩ | ⟨a, s', hcall, -⟩
    · rw [hcall]
    · rw [hcall] at he
      cases he
  · intro s i a ha
    rcases h s i with ⟨e, hcall⟩ | ⟨a', s', -, habove, -⟩
    · rw [hcall] at ha
      cases ha
    · exact habove
  · intro s i a ha
    rcases h s i with ⟨e, hcall⟩ | ⟨a', s', hcall, -, hmoved⟩
    · rw [hcall] at ha
      cases ha
    · rw [hcall]
      exact hmoved

theorem Raises.mark_of_ne (h : K.Raises rel) {s : σ} {i : ι} {k : κ} (hk : k ≠ K.key i) :
    K.mark (K.call s i).2 k = K.mark s k := by
  cases hcall : (K.call s i).1 with
  | error e => rw [h.refused s i e hcall]
  | ok a => rw [h.moved s i a hcall, if_neg hk]

/-- One call appends what it accepts to the mark it finds. -/
theorem Raises.mark_call (h : K.Raises rel) (s : σ) (i : ι) (k : κ) :
    K.mark (K.call s i).2 k =
      if (K.call s i).1.isOk ∧ K.key i = k then some (K.value i) else K.mark s k := by
  cases hcall : (K.call s i).1 with
  | error e => simp [h.refused s i e hcall, Except.isOk, Except.toBool]
  | ok a =>
    rw [h.moved s i a hcall]
    simp [Except.isOk, Except.toBool, eq_comm]

/-- The mark at the start and the values accepted after it are related in order, and the last of
them is the mark at the end. -/
theorem Raises.run_marks [IsTrans ν rel] (h : K.Raises rel) (k : κ) (calls : List ι) (s : σ) :
    ((K.mark s k).toList ++ K.accepted s k calls).Pairwise rel ∧
      K.mark (K.run s calls) k = ((K.mark s k).toList ++ K.accepted s k calls).getLast? := by
  induction calls generalizing s with
  | nil =>
    unfold accepted run
    rw [List.append_nil]
    cases K.mark s k with
    | none => exact ⟨List.Pairwise.nil, rfl⟩
    | some m => exact ⟨List.pairwise_singleton _ _, rfl⟩
  | cons i calls ih =>
    obtain ⟨hrel, hlast⟩ := ih (K.call s i).2
    rw [h.mark_call] at hrel hlast
    unfold accepted run
    by_cases hok : (K.call s i).1.isOk ∧ K.key i = k
    · rw [if_pos hok] at hrel hlast ⊢
      obtain ⟨hisOk, rfl⟩ := hok
      obtain ⟨a, ha⟩ : ∃ a, (K.call s i).1 = .ok a := by
        cases hcall : (K.call s i).1 with
        | error e =>
          rw [hcall] at hisOk
          cases hisOk
        | ok a => exact ⟨a, rfl⟩
      have habove := h.above s i a ha
      cases hmark : K.mark s (K.key i) with
      | none => exact ⟨hrel, hlast⟩
      | some m =>
        have hm : rel m (K.value i) := habove m hmark
        have htail : ∀ v ∈ K.value i :: K.accepted (K.call s i).2 (K.key i) calls, rel m v := by
          intro v hv
          rcases List.mem_cons.mp hv with rfl | hv
          · exact hm
          · exact IsTrans.trans _ _ _ hm ((List.pairwise_cons.mp hrel).1 v hv)
        constructor
        · exact List.pairwise_cons.mpr ⟨htail, hrel⟩
        · rw [hlast]
          exact (List.getLast?_cons_cons).symm
    · rw [if_neg hok] at hrel hlast ⊢
      exact ⟨hrel, hlast⟩

/-- The last entry of a rising list is its greatest. -/
theorem getLast?_eq_some_iff_isGreatest [LE ν] [Std.IsPartialOrder ν] {l : List ν} (h : l.Pairwise (· ≤ ·))
    (m : ν) : l.getLast? = some m ↔ IsGreatest {v | v ∈ l} m := by
  have hlast : ∀ m, l.getLast? = some m → IsGreatest {v | v ∈ l} m := by
    intro m hm
    obtain ⟨front, rfl⟩ := List.getLast?_eq_some_iff.mp hm
    constructor
    · exact List.mem_append_right _ (List.mem_singleton_self m)
    · intro v hv
      rcases List.mem_append.mp hv with hv | hv
      · exact (List.pairwise_append.mp h).2.2 v hv m (List.mem_singleton_self m)
      · rw [List.mem_singleton.mp hv]
        exact Std.le_refl m
  constructor
  · exact hlast m
  · intro hm
    cases hl : l.getLast? with
    | none =>
      rw [List.getLast?_eq_none_iff.mp hl] at hm
      cases hm.1
    | some v =>
      have hv := hlast v hl
      rw [Std.le_antisymm (hm.2 hv.1) (hv.2 hm.1)]

/-- From a start without marks, calls that raise marks keep the greatest value. -/
theorem Raises.keepsGreatest [LE ν] [Std.IsPartialOrder ν] [IsTrans ν rel] (h : K.Raises rel)
    (hle : ∀ a b, rel a b → a ≤ b) {start : σ} (hstart : ∀ k, K.mark start k = none) :
    K.KeepsGreatest rel start := by
  have hrun : ∀ calls k, (K.accepted start k calls).Pairwise rel ∧
      K.mark (K.run start calls) k = (K.accepted start k calls).getLast? := by
    intro calls k
    have hmarks := h.run_marks k calls start
    rw [hstart k] at hmarks
    exact hmarks
  constructor
  · intro calls k m
    rw [(hrun calls k).2]
    exact getLast?_eq_some_iff_isGreatest ((hrun calls k).1.imp (hle _ _)) m
  · intro calls k
    exact (hrun calls k).1
  · intro calls i e he
    exact h.refused _ i e he
  · intro calls i k hk
    exact h.mark_of_ne hk

end Keeper
end Dmtap.Lib
