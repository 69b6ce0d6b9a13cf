import Mathlib.Init

/-! Postconditions of fallible computations: what holds of the value, and what holds of the
exception. -/
namespace Dmtap.Lib
universe u v

/-- Whatever the computation ends with, a value satisfies `P` and an exception `Q`. -/
def Ends {ε : Type u} {α : Type v} (P : α → Prop) (Q : ε → Prop) : Except ε α → Prop
  | .ok a => P a
  | .error e => Q e

namespace Ends

variable {ε : Type u} {α β : Type v} {P P' : α → Prop} {Q Q' : ε → Prop} {R : β → Prop} {p : Except ε α}

theorem ok {a : α} (h : P a) : Ends P Q (.ok a) := h

theorem error {e : ε} (h : Q e) : Ends P Q (.error e) := h

theorem of_ok {a : α} (hp : Ends P Q p) (h : p = .ok a) : P a := by
  rw [h] at hp
  exact hp

theorem of_error {e : ε} (hp : Ends P Q p) (h : p = .error e) : Q e := by
  rw [h] at hp
  exact hp

theorem bind {f : α → Except ε β} (hp : Ends P Q p) (hf : ∀ a, P a → Ends R Q (f a)) :
    Ends R Q (p >>= f) := by
  cases p with
  | ok a => exact hf a hp
  | error e => exact hp

theorem imp (hp : Ends P Q p) (hval : ∀ a, P a → P' a) (hexc : ∀ e, Q e → Q' e) :
    Ends P' Q' p := by
  cases p with
  | ok a => exact hval a hp
  | error e => exact hexc e hp

theorem imp_error (hp : Ends P Q p) (hexc : ∀ e, Q e → Q' e) : Ends P Q' p :=
  hp.imp (fun _ h => h) hexc

theorem imp_ok (hp : Ends P Q p) (hval : ∀ a, P a → P' a) : Ends P' Q p :=
  hp.imp hval fun _ h => h

end Ends

theorem exists_of_bind_eq_ok {ε : Type u} {α β : Type v} {p : Except ε α} {f : α → Except ε β}
    {b : β} (h : p >>= f = .ok b) : ∃ a, p = .ok a ∧ f a = .ok b := by
  cases p with
  | ok a => exact ⟨a, rfl, h⟩
  | error e => cases h

theorem bind_ok_eq_error_iff {ε : Type u} {α β : Type v} {p : Except ε α} {f : α → β} {e : ε} :
    (p >>= fun a => .ok (f a)) = .error e ↔ p = .error e := by
  cases p with
  | ok a =>
    constructor
    · exact fun h => nomatch h
    · exact fun h => nomatch h
  | error e' =>
    constructor
    · intro h
      exact congrArg Except.error (Except.error.inj h)
    · intro h
      exact congrArg Except.error (Except.error.inj h)

end Dmtap.Lib
