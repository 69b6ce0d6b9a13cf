import Dmtap.Lib.Bytes

/-! Readers: computations that consume a state and may fail. A reader of byte strings is
compared with a printer, the function that writes what the reader should read. -/
namespace Dmtap.Lib

theorem except_bind_eq_ok {ε α β : Type} {x : Except ε α} {f : α → Except ε β} {b : β} :
    (x >>= f) = .ok b ↔ ∃ a, x = .ok a ∧ f a = .ok b := by
  cases x with
  | error e =>
    constructor
    · intro h
      cases h
    · rintro ⟨a, ha, -⟩
      cases ha
  | ok a =>
    constructor
    · intro h
      exact ⟨a, rfl, h⟩
    · rintro ⟨a', ha, h⟩
      rw [Except.ok.inj ha]
      exact h

/-- A check that returns nothing passes before what follows it runs. -/
theorem except_check_bind_eq_ok {ε β : Type} {x : Except ε Unit} {f : Unit → Except ε β} {b : β} :
    (x >>= f) = .ok b ↔ x = .ok () ∧ f () = .ok b := by
  rw [except_bind_eq_ok]
  constructor
  · rintro ⟨⟨⟩, hx, hf⟩
    exact ⟨hx, hf⟩
  · intro h
    exact ⟨(), h⟩

/-- A refusal in front of a computation that succeeds has not struck. -/
theorem except_guard_eq_ok {ε α : Type} {c : Prop} [Decidable c] {e : ε} {x : Except ε α} {a : α} :
    (if c then .error e else x) = .ok a ↔ ¬ c ∧ x = .ok a := by
  by_cases hc : c
  · rw [if_pos hc]
    constructor
    · intro h
      cases h
    · intro h
      exact absurd hc h.1
  · rw [if_neg hc]
    exact (and_iff_right hc).symm

theorem except_mapError_eq_ok {ε ε' α : Type} {x : Except ε α} {f : ε → ε'} {a : α} :
    x.mapError f = .ok a ↔ x = .ok a := by
  cases x with
  | error e => simp [Except.mapError]
  | ok u => simp [Except.mapError]

/-- A traversal that succeeds read every item. -/
theorem forall₂_of_mapM {ε α β : Type} {f : α → Except ε β} {a : List α} {l : List β}
    (h : a.mapM f = .ok l) : List.Forall₂ (fun x y => f x = .ok y) a l := by
  induction a generalizing l with
  | nil =>
    have hl : l = [] := (Except.ok.inj h).symm
    rw [hl]
    exact List.Forall₂.nil
  | cons x a ih =>
    rw [List.mapM_cons] at h
    obtain ⟨y, hx, h⟩ := except_bind_eq_ok.mp h
    obtain ⟨ys, hrest, h⟩ := except_bind_eq_ok.mp h
    have hl : l = y :: ys := (Except.ok.inj h).symm
    rw [hl]
    exact List.Forall₂.cons hx (ih hrest)

theorem exists_of_mem_mapM {ε α β : Type} {f : α → Except ε β} {a : List α} {l : List β} {y : β}
    (h : a.mapM f = .ok l) (hy : y ∈ l) : ∃ x ∈ a, f x = .ok y := by
  have hall := forall₂_of_mapM h
  clear h
  induction hall with
  | nil => cases hy
  | cons hx _ ih =>
    rcases List.mem_cons.mp hy with rfl | hy
    · exact ⟨_, List.mem_cons_self, hx⟩
    · obtain ⟨x, hmem, hfx⟩ := ih hy
      exact ⟨x, List.mem_cons_of_mem _ hmem, hfx⟩

theorem isOk_iff {ε : Type} {x : Except ε Unit} : x.isOk = true ↔ x = .ok () := by
  cases x with
  | error e => simp [Except.isOk, Except.toBool]
  | ok u => simp [Except.isOk, Except.toBool]

/-- A loop of checks passes exactly when each of them does. -/
theorem forM_eq_ok {ε α : Type} {f : α → Except ε Unit} {l : List α} :
    l.forM f = .ok () ↔ ∀ a ∈ l, f a = .ok () := by
  induction l with
  | nil => simp [pure, Except.pure]
  | cons a l ih =>
    change (f a >>= fun _ => l.forM f) = .ok () ↔ _
    rw [except_check_bind_eq_ok, ih, List.forall_mem_cons]

theorem exists_ok_of_any {ε α : Type} {x : Except ε α} {f : α → Bool}
    (h : x.toOption.any f = true) : ∃ a, x = .ok a ∧ f a = true := by
  cases x with
  | error e => cases h
  | ok a => exact ⟨a, rfl, h⟩

abbrev Reader (σ ε α : Type) := StateT σ (Except ε) α

namespace Reader

section Steps
variable {σ ε α β : Type} {s t : σ}

@[simp] theorem run_pure (a : α) : (pure a : Reader σ ε α).run s = .ok (a, s) := rfl

@[simp] theorem run_throw (e : ε) : (throw e : Reader σ ε α).run s = .error e := rfl

theorem run_bind_ok {p : Reader σ ε α} {f : α → Reader σ ε β} {a : α}
    (h : p.run s = .ok (a, t)) : (p >>= f).run s = (f a).run t := by
  rw [StateT.run_bind, h]
  rfl

theorem run_bind_error {p : Reader σ ε α} {f : α → Reader σ ε β} {e : ε}
    (h : p.run s = .error e) : (p >>= f).run s = .error e := by
  rw [StateT.run_bind, h]
  rfl

theorem run_bind_eq_ok {p : Reader σ ε α} {f : α → Reader σ ε β} {b : β} :
    (p >>= f).run s = .ok (b, t) ↔
      ∃ a u, p.run s = .ok (a, u) ∧ (f a).run u = .ok (b, t) := by
  cases h : p.run s with
  | error e => simp [run_bind_error h]
  | ok r =>
    obtain ⟨a, u⟩ := r
    simp [run_bind_ok h]

theorem run_bind_throw_ne_ok {p : Reader σ ε α} {e : ε} {r : β × σ} :
    (p >>= fun _ => (throw e : Reader σ ε β)).run s ≠ .ok r := by
  intro h
  obtain ⟨_, _, _, h⟩ := run_bind_eq_ok.mp h
  cases h

/-- Where the first branch always fails, success comes from the other one. -/
theorem run_of_ite {c : Prop} [Decidable c] {x y : Reader σ ε α} {p : α × σ}
    (hx : x.run s ≠ .ok p) (h : (if c then x else y).run s = .ok p) : y.run s = .ok p := by
  by_cases hc : c
  · rw [if_pos hc] at h
    exact absurd h hx
  · rw [if_neg hc] at h
    exact h

/-- From `s` the reader succeeds with `a`, leaving `t`, exactly when `c` holds. -/
def Decides (p : Reader σ ε α) (s : σ) (c : Prop) (a : α) (t : σ) : Prop :=
  (c → p.run s = .ok (a, t)) ∧ (¬ c → ∃ e, p.run s = .error e)

theorem decides_true {p : Reader σ ε α} {a : α} (h : p.run s = .ok (a, t)) :
    Decides p s True a t :=
  ⟨fun _ => h, fun h => absurd trivial h⟩

theorem Decides.congr {p : Reader σ ε α} {a : α} {c d : Prop} (h : Decides p s c a t)
    (hcd : c ↔ d) : Decides p s d a t :=
  ⟨fun hd => h.1 (hcd.mpr hd), fun hd => h.2 (fun hc => hd (hcd.mp hc))⟩

theorem Decides.bind {p : Reader σ ε α} {f : α → Reader σ ε β} {a : α} {b : β} {c d : Prop}
    {u : σ} (hp : Decides p s c a u) (hf : c → Decides (f a) u d b t) :
    Decides (p >>= f) s (c ∧ d) b t := by
  by_cases hc : c
  · have hrun : (p >>= f).run s = (f a).run u := run_bind_ok (hp.1 hc)
    constructor
    · intro h
      rw [hrun, (hf hc).1 h.2]
    · intro h
      rw [hrun]
      exact (hf hc).2 (fun hd => h ⟨hc, hd⟩)
  · obtain ⟨e, he⟩ := hp.2 hc
    exact ⟨fun h => absurd h.1 hc, fun _ => ⟨e, run_bind_error he⟩⟩

/-- A step that never fails adds no condition. -/
theorem Decides.bind_ok {p : Reader σ ε α} {f : α → Reader σ ε β} {a : α} {b : β} {c : Prop}
    {u : σ} (hp : Decides p s c a u) (hf : (f a).run u = .ok (b, t)) :
    Decides (p >>= f) s c b t :=
  (hp.bind (fun _ => decides_true hf)).congr (and_iff_left trivial)

theorem Decides.ok_bind {p : Reader σ ε α} {f : α → Reader σ ε β} {a : α} {b : β} {c : Prop}
    {u : σ} (hp : p.run s = .ok (a, u)) (hf : Decides (f a) u c b t) :
    Decides (p >>= f) s c b t :=
  ((decides_true hp).bind (fun _ => hf)).congr (and_iff_right trivial)

end Steps
end Reader
end Dmtap.Lib
