import Dmtap.Lib.Reader

/-! Records read field by field out of a bag of keyed values. A reader takes the fields it
knows, refuses what is left over, and `Yields` says what the bag must have held. -/
namespace Dmtap.Lib.Record

section Operations
variable {κ ν ε ε' α : Type}

/-- Refuse a bag that is not empty. -/
def deny (unknown : κ → ε) : Reader (List (κ × ν)) ε Unit := do
  match ← get with
  | [] => return ()
  | p :: _ => throw (unknown p.1)

theorem deny_run {unknown : κ → ε} {s t : List (κ × ν)} {u : Unit}
    (h : (deny unknown).run s = .ok (u, t)) : s = [] ∧ t = [] := by
  cases s with
  | nil =>
    obtain ⟨-, rfl⟩ := Prod.mk.inj (Except.ok.inj h)
    exact ⟨rfl, rfl⟩
  | cons p s => cases h

def ofExcept {σ : Type} (conv : ε' → ε) : Except ε' α → Reader σ ε α
  | .ok a => pure a
  | .error e => throw (conv e)

theorem ofExcept_run {σ : Type} {conv : ε' → ε} {x : Except ε' α} {s t : σ} {a : α}
    (h : (ofExcept conv x).run s = .ok (a, t)) : x = .ok a ∧ t = s := by
  cases x with
  | error e => cases h
  | ok b =>
    obtain ⟨rfl, rfl⟩ := Prod.mk.inj (Except.ok.inj h)
    exact ⟨rfl, rfl⟩

variable [DecidableEq κ]

/-- Remove the first value at `k`. -/
def remove (k : κ) : List (κ × ν) → Option (ν × List (κ × ν))
  | [] => none
  | p :: s => if p.1 = k then some (p.2, s) else (remove k s).map (fun r => (r.1, p :: r.2))

theorem remove_perm {k : κ} {s t : List (κ × ν)} {v : ν} (h : remove k s = some (v, t)) :
    s.Perm ((k, v) :: t) := by
  induction s generalizing t with
  | nil => cases h
  | cons p s ih =>
    unfold remove at h
    split_ifs at h with hk
    · obtain ⟨rfl, rfl⟩ := Prod.mk.inj (Option.some.inj h)
      subst hk
      exact List.Perm.refl _
    · obtain ⟨⟨v', t'⟩, hr, heq⟩ := Option.map_eq_some_iff.mp h
      obtain ⟨rfl, rfl⟩ := Prod.mk.inj heq
      exact ((ih hr).cons p).trans (List.Perm.swap _ _ _)

/-- The value at `k`, taken out of the bag, if there is one. -/
def take (k : κ) : Reader (List (κ × ν)) ε (Option ν) := fun s =>
  match remove k s with
  | none => .ok (none, s)
  | some (v, t) => .ok (some v, t)

/-- The value at `k`, which must be there. -/
def req (missing : κ → ε) (k : κ) : Reader (List (κ × ν)) ε ν := do
  match ← take k with
  | none => throw (missing k)
  | some v => return v

/-- A field is taken out of the bag, or it is not there. -/
theorem take_cases {k : κ} {s t : List (κ × ν)} {o : Option ν}
    (h : (take k : Reader (List (κ × ν)) ε (Option ν)).run s = .ok (o, t)) :
    (remove k s = none ∧ o = none ∧ t = s) ∨ ∃ v, remove k s = some (v, t) ∧ o = some v := by
  change (match remove k s with
    | none => Except.ok (none, s)
    | some (v, t) => .ok (some v, t)) = .ok (o, t) at h
  cases hr : remove k s with
  | none =>
    rw [hr] at h
    obtain ⟨rfl, rfl⟩ := Prod.mk.inj (Except.ok.inj h)
    exact Or.inl ⟨rfl, rfl, rfl⟩
  | some r =>
    rw [hr] at h
    obtain ⟨rfl, rfl⟩ := Prod.mk.inj (Except.ok.inj h)
    exact Or.inr ⟨r.1, rfl, rfl⟩

theorem take_run {k : κ} {s t : List (κ × ν)} {o : Option ν}
    (h : (take k : Reader (List (κ × ν)) ε (Option ν)).run s = .ok (o, t)) :
    s.Perm (o.toList.map (fun v => (k, v)) ++ t) := by
  obtain ⟨-, rfl, rfl⟩ | ⟨v, hremove, rfl⟩ := take_cases h
  · exact List.Perm.refl _
  · exact remove_perm hremove

theorem req_run {missing : κ → ε} {k : κ} {s t : List (κ × ν)} {v : ν}
    (h : (req missing k).run s = .ok (v, t)) : s.Perm ((k, v) :: t) := by
  obtain ⟨o, u, htake, h⟩ := Reader.run_bind_eq_ok.mp h
  cases o with
  | none => cases h
  | some w =>
    obtain ⟨rfl, rfl⟩ := Prod.mk.inj (Except.ok.inj h)
    exact take_run htake

/-- A required field with its decoder. -/
def field (missing : κ → ε) (conv : ε' → ε) (k : κ) (dec : ν → Except ε' α) :
    Reader (List (κ × ν)) ε α := do
  let v ← req missing k
  ofExcept conv (dec v)

/-- An optional field with its decoder. -/
def optField (conv : ε' → ε) (k : κ) (dec : ν → Except ε' α) :
    Reader (List (κ × ν)) ε (Option α) := do
  match ← take k with
  | none => return none
  | some v =>
    let a ← ofExcept conv (dec v)
    return some a

theorem remove_cons (k : κ) (v : ν) (s : List (κ × ν)) : remove k ((k, v) :: s) = some (v, s) := by
  simp [remove]

theorem remove_eq_none {k : κ} {s : List (κ × ν)} (h : ∀ p ∈ s, p.1 ≠ k) : remove k s = none := by
  induction s with
  | nil => rfl
  | cons p s ih =>
    have hs := ih fun q hq => h q (List.mem_cons_of_mem p hq)
    simp [remove, h p List.mem_cons_self, hs]

theorem take_run_cons (k : κ) (v : ν) (s : List (κ × ν)) :
    (take k : Reader (List (κ × ν)) ε (Option ν)).run ((k, v) :: s) = .ok (some v, s) := by
  change (match remove k ((k, v) :: s) with
    | none => Except.ok (none, (k, v) :: s)
    | some (v, t) => .ok (some v, t)) = _
  rw [remove_cons]

theorem field_run_cons {missing : κ → ε} {conv : ε' → ε} {k : κ} {dec : ν → Except ε' α} {v : ν}
    {a : α} (h : dec v = .ok a) (s : List (κ × ν)) :
    (field missing conv k dec).run ((k, v) :: s) = .ok (a, s) := by
  have hreq : (req missing k).run ((k, v) :: s) = .ok (v, s) :=
    Reader.run_bind_ok (take_run_cons k v s)
  have hbind : (field missing conv k dec).run ((k, v) :: s) = (ofExcept conv (dec v)).run s :=
    Reader.run_bind_ok hreq
  rw [hbind, h]
  rfl

theorem optField_run_cons {conv : ε' → ε} {k : κ} {dec : ν → Except ε' α} {v : ν} {a : α}
    (h : dec v = .ok a) (s : List (κ × ν)) :
    (optField conv k dec).run ((k, v) :: s) = .ok (some a, s) := by
  have hbind : (optField conv k dec).run ((k, v) :: s) =
      (ofExcept conv (dec v) >>= fun a => pure (some a)).run s :=
    Reader.run_bind_ok (take_run_cons k v s)
  rw [hbind, h]
  rfl

theorem optField_run_none {conv : ε' → ε} {k : κ} {dec : ν → Except ε' α} {s : List (κ × ν)}
    (h : ∀ p ∈ s, p.1 ≠ k) : (optField conv k dec).run s = .ok (none, s) := by
  have htake : (take k : Reader (List (κ × ν)) ε (Option ν)).run s = .ok (none, s) := by
    change (match remove k s with
      | none => Except.ok (none, s)
      | some (v, t) => .ok (some v, t)) = _
    rw [remove_eq_none h]
  exact Reader.run_bind_ok htake

/-- Removing a value leaves the first value at every other key. -/
theorem lookup_of_remove {k : κ} {s t : List (κ × ν)} {v : ν} (h : remove k s = some (v, t)) :
    s.lookup k = some v ∧ ∀ k' ≠ k, t.lookup k' = s.lookup k' := by
  induction s generalizing t with
  | nil => cases h
  | cons p s ih =>
    obtain ⟨k₀, v₀⟩ := p
    unfold remove at h
    split_ifs at h with hk
    · obtain ⟨rfl, rfl⟩ := Prod.mk.inj (Option.some.inj h)
      obtain rfl : k₀ = k := hk
      refine ⟨List.lookup_cons_self, fun k' hk' => ?_⟩
      have hne : (k' == k₀) = false := by simpa using hk'
      rw [List.lookup_cons, hne]
    · obtain ⟨⟨v', t'⟩, hr, heq⟩ := Option.map_eq_some_iff.mp h
      obtain ⟨rfl, rfl⟩ := Prod.mk.inj heq
      obtain ⟨hlookup, hrest⟩ := ih hr
      have hne : (k == k₀) = false := by simpa using fun heq => hk heq.symm
      rw [List.lookup_cons, hne]
      refine ⟨hlookup, fun k' hk' => ?_⟩
      rw [List.lookup_cons, List.lookup_cons, hrest k' hk']

theorem lookup_eq_none_of_remove {k : κ} {s : List (κ × ν)} (h : remove k s = none) :
    s.lookup k = none := by
  induction s with
  | nil => rfl
  | cons p s ih =>
    unfold remove at h
    split_ifs at h with hk
    have hne : (k == p.1) = false := by simpa using fun heq => hk heq.symm
    rw [List.lookup_cons, hne]
    exact ih (Option.map_eq_none_iff.mp h)

theorem take_lookup {k : κ} {s t : List (κ × ν)} {o : Option ν}
    (h : (take k : Reader (List (κ × ν)) ε (Option ν)).run s = .ok (o, t)) :
    s.lookup k = o ∧ ∀ k' ≠ k, t.lookup k' = s.lookup k' := by
  obtain ⟨hremove, rfl, rfl⟩ | ⟨v, hremove, rfl⟩ := take_cases h
  · exact ⟨lookup_eq_none_of_remove hremove, fun _ _ => rfl⟩
  · exact lookup_of_remove hremove

theorem field_lookup {missing : κ → ε} {conv : ε' → ε} {k : κ} {dec : ν → Except ε' α}
    {s t : List (κ × ν)} {a : α} (h : (field missing conv k dec).run s = .ok (a, t)) :
    (∃ v, s.lookup k = some v ∧ dec v = .ok a) ∧ ∀ k' ≠ k, t.lookup k' = s.lookup k' := by
  obtain ⟨v, u, hreq, hdec⟩ := Reader.run_bind_eq_ok.mp h
  obtain ⟨hv, rfl⟩ := ofExcept_run hdec
  obtain ⟨o, u', htake, hsome⟩ := Reader.run_bind_eq_ok.mp hreq
  obtain ⟨hlookup, hrest⟩ := take_lookup htake
  cases o with
  | none => cases hsome
  | some w =>
    obtain ⟨rfl, rfl⟩ := Prod.mk.inj (Except.ok.inj hsome)
    exact ⟨⟨w, hlookup, hv⟩, hrest⟩

theorem optField_lookup {conv : ε' → ε} {k : κ} {dec : ν → Except ε' α} {s t : List (κ × ν)}
    {o : Option α} (h : (optField conv k dec).run s = .ok (o, t)) :
    ((s.lookup k = none ∧ o = none) ∨ ∃ v a, s.lookup k = some v ∧ dec v = .ok a ∧ o = some a) ∧
      ∀ k' ≠ k, t.lookup k' = s.lookup k' := by
  obtain ⟨ov, u, htake, hdec⟩ := Reader.run_bind_eq_ok.mp h
  obtain ⟨hlookup, hrest⟩ := take_lookup htake
  cases ov with
  | none =>
    obtain ⟨rfl, rfl⟩ := Prod.mk.inj (Except.ok.inj hdec)
    exact ⟨Or.inl ⟨hlookup, rfl⟩, hrest⟩
  | some v =>
    obtain ⟨a, u', ha, hr⟩ := Reader.run_bind_eq_ok.mp hdec
    obtain ⟨hv, rfl⟩ := ofExcept_run ha
    obtain ⟨rfl, rfl⟩ := Prod.mk.inj (Except.ok.inj hr)
    exact ⟨Or.inr ⟨v, a, hlookup, hv, rfl⟩, hrest⟩

end Operations

section Rules
variable {κ ν ε ε' α β E : Type} (img : κ × ν → E) (good : κ × ν → Prop)

/-- A run of the reader from good entries empties the bag, and what it returns is related by
`W` to the images of the entries: those in `acc`, taken before, and those in the bag. -/
def Yields (r : Reader (List (κ × ν)) ε α) (acc : List E) (W : α → List E → Prop) : Prop :=
  ∀ ⦃s a t⦄, (∀ p ∈ s, good p) → r.run s = .ok (a, t) →
    t = [] ∧ ∃ l, W a l ∧ (acc ++ s.map img).Perm l

variable {img good} {acc : List E} {W : β → List E → Prop}

theorem Yields.mono {r : Reader (List (κ × ν)) ε β} (h : Yields img good r acc W)
    {W' : β → List E → Prop} (hW : ∀ b l, W b l → W' b l) : Yields img good r acc W' := by
  intro s b t hs hrun
  obtain ⟨ht, l, hl, hperm⟩ := h hs hrun
  exact ⟨ht, l, hW b l hl, hperm⟩

/-- One more image among those taken before is one more among all. -/
theorem Yields.frame {r : Reader (List (κ × ν)) ε β} (h : Yields img good r acc W) (e : E) :
    Yields img good r (acc ++ [e]) (fun b l => ∃ l', W b l' ∧ l.Perm (e :: l')) := by
  intro s b t hs hrun
  obtain ⟨ht, l, hl, hperm⟩ := h hs hrun
  refine ⟨ht, e :: l, ⟨l, hl, List.Perm.refl _⟩, ?_⟩
  rw [List.append_assoc, List.singleton_append]
  exact List.perm_middle.trans (hperm.cons e)

theorem yields_throw (e : ε) : Yields img good (throw e : Reader _ ε β) acc W := by
  intro s a t _ h
  cases h

theorem yields_guard {c : Prop} [Decidable c] {e : ε} {r : Reader (List (κ × ν)) ε β}
    (h : ¬ c → Yields img good r acc W) : Yields img good (if c then throw e else r) acc W := by
  split_ifs with hc
  · exact yields_throw e
  · exact h hc

theorem yields_get {f : List (κ × ν) → Reader (List (κ × ν)) ε β}
    (h : ∀ s, Yields img good (f s) acc W) : Yields img good (get >>= f) acc W := by
  intro s b t hs hrun
  exact h s hs hrun

/-- Once what is left over is refused, the images taken are all there were. -/
theorem yields_deny {unknown : κ → ε} {r : Reader (List (κ × ν)) ε β}
    (h : ∀ b t, r.run [] = .ok (b, t) → t = [] ∧ W b acc) :
    Yields img good (deny unknown >>= fun _ => r) acc W := by
  intro s b t hs hrun
  obtain ⟨a, u, hdeny, hrest⟩ := Reader.run_bind_eq_ok.mp hrun
  obtain ⟨rfl, rfl⟩ := deny_run hdeny
  obtain ⟨ht, hW⟩ := h b t hrest
  exact ⟨ht, acc, hW, by simp⟩

theorem yields_deny_pure {unknown : κ → ε} {b : β} (h : W b acc) :
    Yields img good (deny unknown >>= fun _ => (pure b : Reader _ ε β)) acc W := by
  refine yields_deny (fun b' t hrun => ?_)
  obtain ⟨rfl, rfl⟩ := Prod.mk.inj (Except.ok.inj hrun)
  exact ⟨rfl, h⟩

private theorem perm_taken {s l u : List (κ × ν)} (h : s.Perm (l ++ u)) :
    (acc ++ s.map img).Perm (acc ++ l.map img ++ u.map img) := by
  have hmap := h.map img
  rw [List.map_append] at hmap
  rw [List.append_assoc]
  exact hmap.append_left acc

variable [DecidableEq κ]

theorem yields_field {missing : κ → ε} {conv : ε' → ε} {k : κ} {dec : ν → Except ε' α}
    {f : α → Reader (List (κ × ν)) ε β}
    (h : ∀ v a, good (k, v) → dec v = .ok a → Yields img good (f a) (acc ++ [img (k, v)]) W) :
    Yields img good (field missing conv k dec >>= f) acc W := by
  intro s b t hs hrun
  obtain ⟨a, u, hfield, hrest⟩ := Reader.run_bind_eq_ok.mp hrun
  obtain ⟨v, u', hreq, hdec⟩ := Reader.run_bind_eq_ok.mp hfield
  obtain ⟨hv, rfl⟩ := ofExcept_run hdec
  have hperm := req_run hreq
  have hu : ∀ p ∈ u, good p := fun p hp => hs p (hperm.mem_iff.mpr (List.mem_cons_of_mem _ hp))
  have hkv : good (k, v) := hs _ (hperm.mem_iff.mpr List.mem_cons_self)
  obtain ⟨ht, l, hW, hl⟩ := h v a hkv hv hu hrest
  exact ⟨ht, l, hW, (perm_taken (l := [(k, v)]) hperm).trans hl⟩

theorem yields_optField {conv : ε' → ε} {k : κ} {dec : ν → Except ε' α}
    {f : Option α → Reader (List (κ × ν)) ε β} (hnone : Yields img good (f none) acc W)
    (hsome : ∀ v a, good (k, v) → dec v = .ok a →
      Yields img good (f (some a)) (acc ++ [img (k, v)]) W) :
    Yields img good (optField conv k dec >>= f) acc W := by
  intro s b t hs hrun
  obtain ⟨o, u, hfield, hrest⟩ := Reader.run_bind_eq_ok.mp hrun
  obtain ⟨ov, u', htake, hdec⟩ := Reader.run_bind_eq_ok.mp hfield
  have hperm := take_run htake
  cases ov with
  | none =>
    obtain ⟨rfl, rfl⟩ := Prod.mk.inj (Except.ok.inj hdec)
    have hu : ∀ p ∈ u', good p := fun p hp => hs p (hperm.mem_iff.mpr (by simpa using hp))
    obtain ⟨ht, l, hW, hl⟩ := hnone hu hrest
    have hacc : (acc ++ s.map img).Perm (acc ++ [].map img ++ u'.map img) := perm_taken hperm
    rw [List.map_nil, List.append_nil] at hacc
    exact ⟨ht, l, hW, hacc.trans hl⟩
  | some v =>
    obtain ⟨a, u'', ha, hr⟩ := Reader.run_bind_eq_ok.mp hdec
    obtain ⟨hv, rfl⟩ := ofExcept_run ha
    obtain ⟨rfl, rfl⟩ := Prod.mk.inj (Except.ok.inj hr)
    have hu : ∀ p ∈ u'', good p := fun p hp =>
      hs p (hperm.mem_iff.mpr (List.mem_append_right _ hp))
    have hkv : good (k, v) := hs _ (hperm.mem_iff.mpr (by simp))
    obtain ⟨ht, l, hW, hl⟩ := hsome v a hkv hv hu hrest
    exact ⟨ht, l, hW, (perm_taken (l := [(k, v)]) hperm).trans hl⟩

end Rules
end Dmtap.Lib.Record
