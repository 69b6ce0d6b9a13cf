import Mathlib.Tactic.Ring
import Mathlib.Logic.Function.Basic
import Mathlib.Data.List.Basic

/-! Paths from a leaf to the root of a left-complete binary tree, as a walk that halves
the leaf's index and the last index of its level, and folds of sibling values along them. -/
namespace Dmtap.Lib

/-- The side on which the sibling of a node stands. -/
inductive Side
  | left
  | right
  deriving DecidableEq, Repr

/-- The sides of the siblings met on the way up from `node`, in a level whose last node is
`last`; the last node of a level has no sibling when its index is even. -/
def climb (node last : ℕ) : List Side :=
  if last = 0 then []
  else if node % 2 = 1 then .left :: climb (node / 2) (last / 2)
  else if node = last then climb (node / 2) (last / 2)
  else .right :: climb (node / 2) (last / 2)
termination_by last

@[simp] theorem climb_zero (node : ℕ) : climb node 0 = [] := by
  rw [climb, if_pos rfl]

section Walk
variable {node last : ℕ}

theorem climb_odd (hl : last ≠ 0) (hn : node % 2 = 1) :
    climb node last = .left :: climb (node / 2) (last / 2) := by
  rw [climb, if_neg hl, if_pos hn]

theorem climb_last (hl : last ≠ 0) (he : last % 2 = 0) :
    climb last last = climb (last / 2) (last / 2) := by
  rw [climb, if_neg hl, if_neg (by omega), if_pos rfl]

theorem climb_even (he : node % 2 = 0) (hlt : node < last) :
    climb node last = .right :: climb (node / 2) (last / 2) := by
  rw [climb, if_neg (by omega), if_neg (by omega), if_neg (by omega)]

theorem climb_ne_nil (hn : node ≤ last) (hl : last ≠ 0) : climb node last ≠ [] := by
  induction last using Nat.strong_induction_on generalizing node with
  | _ last ih =>
    by_cases hodd : node % 2 = 1
    · simp [climb_odd hl hodd]
    · by_cases heq : node = last
      · subst heq
        rw [climb_last hl (by omega)]
        exact ih (node / 2) (by omega) le_rfl (by omega)
      · have hlt : node < last := by omega
        simp [climb_even (by omega) hlt]

end Walk

/-- The upper half of a level: the walk is that of the upper half alone, then one step in
which the lower half is the sibling on the left. -/
theorem climb_upper {h a b : ℕ} (hab : a ≤ b) (hb : b < 2 ^ h) :
    climb (2 ^ h + a) (2 ^ h + b) = climb a b ++ [.left] := by
  induction h generalizing a b with
  | zero =>
    have ha : a = 0 := by simp at hb; omega
    have hb0 : b = 0 := by simp at hb; omega
    subst ha hb0
    rw [climb_odd (by simp) (by simp)]
    simp
  | succ h ih =>
    have hpow : 2 ^ (h + 1) = 2 * 2 ^ h := by ring
    rw [hpow] at hb ⊢
    have hpos : 0 < 2 ^ h := Nat.two_pow_pos h
    have ha2 : (2 * 2 ^ h + a) / 2 = 2 ^ h + a / 2 := by omega
    have hb2 : (2 * 2 ^ h + b) / 2 = 2 ^ h + b / 2 := by omega
    have hstep := ih (a := a / 2) (b := b / 2) (by omega) (by omega)
    by_cases hodd : a % 2 = 1
    · rw [climb_odd (by omega) (by omega), ha2, hb2, hstep, climb_odd (by omega) hodd]
      rfl
    · by_cases heq : a = b
      · subst heq
        rw [climb_last (by omega) (by omega), ha2, hstep]
        by_cases hz : a = 0
        · simp [hz]
        · rw [climb_last hz (by omega)]
      · have he : a % 2 = 0 := by omega
        rw [climb_even (by omega) (by omega), ha2, hb2, hstep, climb_even he (by omega)]
        rfl

/-- The lower half of a level: the walk of the full lower half, then one step in which the
upper half is the sibling on the right. -/
theorem climb_lower {h a b : ℕ} (ha : a < 2 ^ h) (hlo : 2 ^ h ≤ b) (hhi : b < 2 ^ (h + 1)) :
    climb a b = climb a (2 ^ h - 1) ++ [.right] := by
  induction h generalizing a b with
  | zero =>
    have ha0 : a = 0 := by simpa using ha
    have hb1 : b = 1 := by simp at hlo hhi; omega
    subst ha0 hb1
    rw [climb_even (by simp) (by simp)]
    simp
  | succ h ih =>
    have hpow : 2 ^ (h + 1) = 2 * 2 ^ h := by ring
    have hpow' : 2 ^ (h + 1 + 1) = 2 * (2 * 2 ^ h) := by ring
    rw [hpow] at ha hlo ⊢
    rw [hpow'] at hhi
    have hpos : 0 < 2 ^ h := Nat.two_pow_pos h
    have hfull : (2 * 2 ^ h - 1) / 2 = 2 ^ h - 1 := by omega
    have hstep := ih (a := a / 2) (b := b / 2) (by omega) (by omega) (by omega)
    by_cases hodd : a % 2 = 1
    · rw [climb_odd (by omega) hodd, climb_odd (by omega) hodd, hfull, hstep]
      rfl
    · have hlt : a < 2 * 2 ^ h - 1 := by omega
      rw [climb_even (by omega) (by omega), climb_even (by omega) hlt, hfull, hstep]
      rfl

section Fold
variable {D : Type} (node : D → D → D)

/-- Combine a value with the sibling of one step. -/
def combine (r : D) (step : Side × D) : D :=
  match step.1 with
  | .left => node step.2 r
  | .right => node r step.2

/-- The value at the top of a path, folded from the value at its foot. -/
def foldPath (seed : D) (steps : List (Side × D)) : D := steps.foldl (combine node) seed

@[simp] theorem foldPath_nil (seed : D) : foldPath node seed [] = seed := rfl

@[simp] theorem foldPath_cons (seed : D) (step : Side × D) (steps : List (Side × D)) :
    foldPath node seed (step :: steps) = foldPath node (combine node seed step) steps := rfl

theorem foldPath_concat (seed : D) (steps : List (Side × D)) (step : Side × D) :
    foldPath node seed (steps ++ [step]) = combine node (foldPath node seed steps) step := by
  simp [foldPath]

variable {node}

theorem combine_injective (hn : Function.Injective2 node) {r r' : D} {step step' : Side × D}
    (hs : step.1 = step'.1) (h : combine node r step = combine node r' step') :
    r = r' ∧ step = step' := by
  obtain ⟨side, d⟩ := step
  obtain ⟨side', d'⟩ := step'
  dsimp only at hs
  subst hs
  cases side with
  | left =>
    obtain ⟨hd, hr⟩ := hn h
    exact ⟨hr, Prod.ext rfl hd⟩
  | right =>
    obtain ⟨hr, hd⟩ := hn h
    exact ⟨hr, Prod.ext rfl hd⟩

/-- Where siblings of one shape fold to one value, they and the seed are the same. -/
theorem foldPath_injective (hn : Function.Injective2 node) {seed seed' : D}
    {steps steps' : List (Side × D)} (hs : steps.map Prod.fst = steps'.map Prod.fst)
    (h : foldPath node seed steps = foldPath node seed' steps') : seed = seed' ∧ steps = steps' := by
  induction steps generalizing seed seed' steps' with
  | nil =>
    have hnil : steps' = [] := by simpa using hs.symm
    subst hnil
    exact ⟨h, rfl⟩
  | cons step steps ih =>
    cases steps' with
    | nil => simp at hs
    | cons step' steps' =>
      obtain ⟨hside, hsides⟩ := List.cons.inj hs
      obtain ⟨hseed, hsteps⟩ := ih hsides h
      obtain ⟨hr, hstep⟩ := combine_injective hn hside hseed
      exact ⟨hr, by rw [hstep, hsteps]⟩

end Fold

section Steps
variable {D : Type} {side : Side} {sides : List Side} {P : List (Side × D) → Prop}

/-- Pairing sides with values, one step at a time. -/
theorem exists_steps_cons {d : D} {values : List D} :
    (∃ steps : List (Side × D), steps.map Prod.fst = side :: sides ∧
      d :: values = steps.map Prod.snd ∧ P steps) ↔
    ∃ steps : List (Side × D), steps.map Prod.fst = sides ∧ values = steps.map Prod.snd ∧
      P ((side, d) :: steps) := by
  constructor
  · rintro ⟨steps, hs, hv, hp⟩
    cases steps with
    | nil => cases hs
    | cons step steps =>
      obtain ⟨rfl, rfl⟩ := List.cons.inj hs
      obtain ⟨rfl, rfl⟩ := List.cons.inj hv
      exact ⟨steps, rfl, rfl, hp⟩
  · rintro ⟨steps, rfl, rfl, hp⟩
    exact ⟨(side, d) :: steps, rfl, rfl, hp⟩

theorem not_exists_steps_nil : ¬ ∃ steps : List (Side × D), steps.map Prod.fst = side :: sides ∧
    [] = steps.map Prod.snd ∧ P steps := by
  rintro ⟨steps, hs, hv, -⟩
  have hnil : steps = [] := by simpa using hv.symm
  rw [hnil] at hs
  cases hs

end Steps
end Dmtap.Lib
