import Dmtap.Lib.Reader

/-! Checks between the steps of a computation with effects: a check has a result and no effect, and
a refusal ends the computation. -/
namespace Dmtap.Lib

variable {ε α β : Type}

section Effects
variable {m : Type → Type} [Monad m]

/-- The result of a check, as a step of a computation with effects. -/
def checked (r : Except ε α) : ExceptT ε m α := ExceptT.mk (pure r)

variable [LawfulMonad m]

theorem checked_bind_ok (a : α) (f : α → ExceptT ε m β) : (checked (.ok a) >>= f) = f a :=
  pure_bind a f

theorem checked_bind_error (e : ε) (f : α → ExceptT ε m β) :
    (checked (.error e) >>= f) = checked (.error e) := by
  change ExceptT.mk (pure (Except.error e) >>= ExceptT.bindCont f) = _
  rw [pure_bind]
  rfl

/-- Checks one after the other are one check. -/
theorem checked_bind (r : Except ε α) (f : α → Except ε β) :
    checked (r >>= f) = (checked r >>= fun a => checked (f a) : ExceptT ε m β) := by
  cases r with
  | error e => exact (checked_bind_error e fun a => checked (f a)).symm
  | ok a => exact (checked_bind_ok a fun a => checked (f a)).symm

/-- A refusal in front of everything is a refusal in front of the checks. -/
theorem guard_eq_checked_bind {c : Prop} [Decidable c] {e : ε} {x : ExceptT ε m β}
    {r : Except ε α} {f : α → ExceptT ε m β} (h : x = checked r >>= f) :
    (if c then throw e else x) = checked (if c then throw e else r) >>= f := by
  by_cases hc : c
  · rw [if_pos hc, if_pos hc]
    exact (checked_bind_error e f).symm
  · rw [if_neg hc, if_neg hc]
    exact h

end Effects

/-- Inversion of a step without effects. -/
theorem exceptT_bind_eq_pure {x : ExceptT ε Id α} {f : α → ExceptT ε Id β} {b : β} :
    (x >>= f) = pure b ↔ ∃ a, x = pure a ∧ f a = pure b := by
  cases x with
  | error e =>
    constructor
    · intro h
      cases h
    · rintro ⟨a, ha, -⟩
      cases ha
  | ok a =>
    constructor
    · intro h
      exact ⟨a, rfl, h⟩
    · rintro ⟨a', ha, h⟩
      rw [← Except.ok.inj ha] at h
      exact h

end Dmtap.Lib
