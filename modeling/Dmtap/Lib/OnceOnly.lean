import Mathlib.Data.Finset.Basic
import Mathlib.Data.List.Nodup

/-! Gates that let every key in once. A call presents a key or none; the gate refuses a key that it
has seen, and remembers every key that is presented to it. -/
namespace Dmtap.Lib

/-- A machine with a set of keys seen, and calls that may each present one key. -/
structure Gate (σ ι ε α κ : Type) where
  seen : σ → Finset κ
  key : ι → Option κ
  call : σ → ι → Except ε α × σ

namespace Gate
variable {σ ι ε α κ : Type} (G : Gate σ ι ε α κ)

/-- The state after a sequence of calls. -/
def run (s : σ) (calls : List ι) : σ := calls.foldl (fun s i => (G.call s i).2) s

/-- The keys that a sequence of calls presents, in order. -/
def presented (calls : List ι) : List κ := calls.filterMap G.key

/-- The keys that are let in along a sequence of calls, in order. -/
def admitted (s : σ) : List ι → List κ
  | [] => []
  | i :: calls =>
    (if (G.call s i).1.isOk then (G.key i).toList else []) ++ admitted (G.call s i).2 calls

/-- What one call does: it lets in a key that is new, and adds the key it presents to the set. -/
structure AdmitsOnce : Prop where
  isOk_iff : ∀ s i, (G.call s i).1.isOk = true ↔ ∃ k, G.key i = some k ∧ k ∉ G.seen s
  mem_seen : ∀ s i k, k ∈ G.seen (G.call s i).2 ↔ k ∈ G.seen s ∨ G.key i = some k

variable {G} (h : G.AdmitsOnce)
include h

/-- The keys seen after a run are those seen before it and those presented in it. -/
theorem AdmitsOnce.mem_seen_run (s : σ) (calls : List ι) (k : κ) :
    k ∈ G.seen (G.run s calls) ↔ k ∈ G.seen s ∨ k ∈ G.presented calls := by
  induction calls generalizing s with
  | nil => simp [run, presented]
  | cons i calls ih =>
    have hstep := h.mem_seen s i k
    have hrest := ih (G.call s i).2
    change k ∈ G.seen (G.run (G.call s i).2 calls) ↔ _
    rw [hrest, hstep, presented, presented, or_assoc]
    cases hkey : G.key i with
    | none => simp [List.filterMap_cons_none hkey]
    | some k' =>
      rw [List.filterMap_cons_some hkey, List.mem_cons, Option.some.injEq, eq_comm (a := k)]

/-- The keys let in are those presented that were not seen before the run. -/
theorem AdmitsOnce.mem_admitted (s : σ) (calls : List ι) (k : κ) :
    k ∈ G.admitted s calls ↔ k ∈ G.presented calls ∧ k ∉ G.seen s := by
  induction calls generalizing s with
  | nil => simp [admitted, presented]
  | cons i calls ih =>
    have hrest := ih (G.call s i).2
    have hseen := h.mem_seen s i k
    rw [admitted, List.mem_append, hrest, hseen]
    cases hkey : G.key i with
    | none =>
      have hpres : G.presented (i :: calls) = G.presented calls := List.filterMap_cons_none hkey
      rw [hpres]
      simp
    | some k' =>
      have hpres : G.presented (i :: calls) = k' :: G.presented calls :=
        List.filterMap_cons_some hkey
      have hok : (G.call s i).1.isOk = true ↔ k' ∉ G.seen s := by
        rw [h.isOk_iff, hkey]
        simp
      rw [hpres, List.mem_cons]
      by_cases hk : k = k'
      · subst hk
        by_cases hnew : k ∈ G.seen s
        · simp [hok, hnew]
        · simp [hok.mpr hnew, hnew]
      · have hk' : k' ≠ k := Ne.symm hk
        by_cases hnew : k' ∈ G.seen s
        · have hno : (G.call s i).1.isOk = false := by
            rw [Bool.eq_false_iff]
            exact fun hisOk => hok.mp hisOk hnew
          simp [hno, hk, hk']
        · simp [hok.mpr hnew, hk, hk']

/-- No key is let in twice. -/
theorem AdmitsOnce.nodup_admitted (s : σ) (calls : List ι) : (G.admitted s calls).Nodup := by
  induction calls generalizing s with
  | nil => exact List.nodup_nil
  | cons i calls ih =>
    have hrest := ih (G.call s i).2
    rw [admitted]
    split_ifs with hok
    · refine List.Nodup.append ?_ hrest ?_
      · cases G.key i <;> simp
      · intro k hk hlater
        have hkey : G.key i = some k := Option.mem_toList.mp hk
        have hnew := ((h.mem_admitted _ _ k).mp hlater).2
        exact hnew ((h.mem_seen s i k).mpr (Or.inr hkey))
    · exact hrest

end Gate
end Dmtap.Lib
