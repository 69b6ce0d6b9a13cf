import Dmtap.Cbor.Lossless

/-! Decoders that rewrite some of the values they accept. Such a decoder gives a value back as
it was, or it gives back a lighter one: the weight of an encoding is the sum of the weights of its
parts, in whatever order they are written, so one rewritten part shows in the whole. -/
namespace Dmtap.Cbor
open Dmtap.Lib

/-- The value `w` is written as `v` was, and `v` satisfies `P`, or it is lighter and `v` does not. -/
def Respelt (P : Prop) (v w : Cv) : Prop :=
  (P ∧ enc w = enc v) ∨ (¬ P ∧ weight (enc w) < weight (enc v))

theorem Respelt.enc_eq_iff {P : Prop} {v w : Cv} (h : Respelt P v w) : enc w = enc v ↔ P := by
  rcases h with ⟨hP, heq⟩ | ⟨hP, hlt⟩
  · exact iff_of_true heq hP
  · refine iff_of_false (fun heq => ?_) hP
    rw [heq] at hlt
    exact lt_irrefl _ hlt

theorem Respelt.weight_le {P : Prop} {v w : Cv} (h : Respelt P v w) :
    weight (enc w) ≤ weight (enc v) := by
  rcases h with ⟨-, heq⟩ | ⟨-, hlt⟩
  · rw [heq]
  · exact hlt.le

theorem Respelt.weight_lt {P : Prop} {v w : Cv} (h : Respelt P v w) (hP : ¬ P) :
    weight (enc w) < weight (enc v) := by
  rcases h with ⟨hP', -⟩ | ⟨-, hlt⟩
  · exact absurd hP' hP
  · exact hlt

/-- Exactly the values in `P` are written back by `put` as `dec` read them. -/
def Rewrites {ε α : Type} (dec : Cv → Except ε α) (put : α → Cv) (P : Cv → Prop) : Prop :=
  ∀ ⦃cv a⦄, cv.KeysDistinct → dec cv = .ok a → Respelt (P cv) cv (put a)

theorem Lossless.rewrites {ε α : Type} {dec : Cv → Except ε α} {put : α → Cv}
    (h : Lossless dec put) : Rewrites dec put (fun _ => True) := by
  intro cv a hcv ha
  exact Or.inl ⟨trivial, h hcv ha⟩

theorem Rewrites.congr {ε α : Type} {dec : Cv → Except ε α} {put : α → Cv} {P Q : Cv → Prop}
    (h : Rewrites dec put P) (hPQ : ∀ cv, P cv ↔ Q cv) : Rewrites dec put Q := by
  intro cv a hcv ha
  rw [← hPQ cv]
  exact h hcv ha

section Lists
variable {α β : Type} {S : α → β → Prop} {f : α → ℕ} {g : β → ℕ}

theorem sum_le_of_forall₂ (hle : ∀ a b, S a b → g b ≤ f a) {l : List α} {l' : List β}
    (h : List.Forall₂ S l l') : (l'.map g).sum ≤ (l.map f).sum := by
  induction h with
  | nil => exact le_refl _
  | cons hab _ ih =>
    rw [List.map_cons, List.sum_cons, List.map_cons, List.sum_cons]
    exact Nat.add_le_add (hle _ _ hab) ih

/-- One strict step makes the whole sum strict. -/
theorem sum_lt_of_forall₂ (hle : ∀ a b, S a b → g b ≤ f a) {l : List α} {l' : List β}
    (h : List.Forall₂ S l l') {P : α → Prop} (hlt : ∀ a b, S a b → ¬ P a → g b < f a)
    (hP : ¬ ∀ a ∈ l, P a) : (l'.map g).sum < (l.map f).sum := by
  induction h with
  | nil => simp at hP
  | @cons a b l l' hab hrest ih =>
    rw [List.map_cons, List.sum_cons, List.map_cons, List.sum_cons]
    by_cases ha : P a
    · have hl : ¬ ∀ x ∈ l, P x := fun hall => hP (List.forall_mem_cons.mpr ⟨ha, hall⟩)
      exact Nat.add_lt_add_of_le_of_lt (hle _ _ hab) (ih hl)
    · exact Nat.add_lt_add_of_lt_of_le (hlt _ _ hab ha) (sum_le_of_forall₂ hle hrest)

end Lists

section Arrays

/-- The items of an array. -/
def Cv.elements : Cv → List Cv
  | .array a => a
  | _ => []

variable {α : Type} {dec : Cv → Except CborError α} {put : α → Cv} {P : Cv → Prop}

theorem forall₂_respelt (hd : Rewrites dec put P) {a : List Cv} {l : List α}
    (h : List.Forall₂ (fun v x => dec v = .ok x) a l) (ha : ∀ v ∈ a, v.KeysDistinct) :
    List.Forall₂ (fun v w => Respelt (P v) v w) a (l.map put) := by
  induction h with
  | nil => exact List.Forall₂.nil
  | cons hv _ ih =>
    obtain ⟨hav, haa⟩ := List.forall_mem_cons.mp ha
    exact List.Forall₂.cons (hd hav hv) (ih haa)

theorem encArray_of_forall₂ {a a' : List Cv}
    (h : List.Forall₂ (fun v w => Respelt (P v) v w) a a') (hP : ∀ v ∈ a, P v) :
    encArray a' = encArray a := by
  induction h with
  | nil => rfl
  | cons hvw _ ih =>
    obtain ⟨hv, ha⟩ := List.forall_mem_cons.mp hP
    rw [encArray, encArray, ih ha, hvw.enc_eq_iff.mpr hv]

theorem weight_encArray (a : List Cv) :
    weight (encArray a) = (a.map (fun v => weight (enc v))).sum := by
  rw [encArray_eq, weight_flatMap]

theorem rewrites_array (hd : Rewrites dec put P) :
    Rewrites (asArrayOf dec) (fun l => .array (l.map put)) (fun cv => ∀ v ∈ cv.elements, P v) := by
  intro cv l hcv h
  cases cv with
  | array a =>
    have hitems := forall₂_respelt hd (forall₂_of_mapM h) (Cv.keysDistinct_array.mp hcv)
    have hlen := hitems.length_eq
    unfold Respelt
    rw [enc, enc, hlen]
    by_cases hP : ∀ v ∈ a, P v
    · left
      rw [encArray_of_forall₂ hitems hP]
      exact ⟨hP, rfl⟩
    · right
      refine ⟨hP, ?_⟩
      rw [weight_append, weight_append, weight_encArray, weight_encArray]
      apply Nat.add_lt_add_left
      exact sum_lt_of_forall₂ (fun v w hvw => hvw.weight_le) hitems (fun v w hvw => hvw.weight_lt) hP
  | _ => cases h

end Arrays

section Maps
variable {good : UInt64 × Cv → Prop}

theorem weight_encEntries (l : List (Bytes × Bytes)) :
    weight (encEntries l) = weight (writeHead 5 (UInt64.ofNat l.length)) +
      (l.map (fun p => weight p.1 + weight p.2)).sum := by
  have hperm := (sortByKey_perm Prod.fst l).map (fun p => weight p.1 + weight p.2)
  unfold encEntries
  rw [weight_append, weight_flatMap, ← hperm.sum_eq]
  simp only [weight_append]

def entryWeight (p : UInt64 × Cv) : ℕ := weight (intKey p.1) + weight (enc p.2)

theorem entryWeight_pos (p : UInt64 × Cv) : 0 < entryWeight p := by
  have hkey : 0 < weight (intKey p.1) := by
    unfold intKey writeHead
    dsimp only
    split_ifs <;> simp [weight]
  unfold entryWeight
  omega

theorem weight_enc_map (m : Fields) :
    weight (enc (.map m)) =
      weight (writeHead 5 (UInt64.ofNat m.length)) + (m.map entryWeight).sum := by
  rw [enc_map, weight_encEntries, List.length_map, List.map_map]
  rfl

/-- The same key, and the value respelt according to `good`. -/
def RespeltEntry (good : UInt64 × Cv → Prop) (p q : UInt64 × Cv) : Prop :=
  p.1 = q.1 ∧ Respelt (good p) p.2 q.2

theorem RespeltEntry.weight_le {p q : UInt64 × Cv} (h : RespeltEntry good p q) :
    entryWeight q ≤ entryWeight p := by
  unfold entryWeight
  rw [h.1]
  exact Nat.add_le_add_left h.2.weight_le _

theorem RespeltEntry.weight_lt {p q : UInt64 × Cv} (h : RespeltEntry good p q) (hp : ¬ good p) :
    entryWeight q < entryWeight p := by
  unfold entryWeight
  rw [h.1]
  exact Nat.add_lt_add_left (h.2.weight_lt hp) _

def RespeltFields (good : UInt64 × Cv → Prop) (l l' : Fields) : Prop :=
  List.Forall₂ (RespeltEntry good) l l'

theorem RespeltFields.entries {l l' : Fields} (h : RespeltFields good l l')
    (hgood : ∀ p ∈ l, good p) : l.map entry = l'.map entry := by
  induction h with
  | nil => rfl
  | cons hpq _ ih =>
    obtain ⟨hp, hl⟩ := List.forall_mem_cons.mp hgood
    rw [List.map_cons, List.map_cons, ih hl, entry, entry, hpq.1, hpq.2.enc_eq_iff.mpr hp]

theorem RespeltFields.filter {l l' : Fields} (h : RespeltFields good l l') (keep : UInt64 → Bool) :
    RespeltFields good (l.filter (fun p => keep p.1)) (l'.filter (fun p => keep p.1)) := by
  induction h with
  | nil => exact List.Forall₂.nil
  | @cons p q l l' hpq _ ih =>
    rw [List.filter_cons, List.filter_cons, hpq.1]
    split_ifs with hk
    · exact List.Forall₂.cons hpq ih
    · exact ih

/-- A received map whose entries are respelt is itself respelt. -/
theorem RespeltFields.respelt {m l l' : Fields} (hm : (m.map Prod.fst).Nodup)
    (hperm : m.Perm l) (h : RespeltFields good l l') :
    Respelt (∀ p ∈ m, good p) (.map m) (.map l') := by
  have hlen : m.length = l'.length := hperm.length_eq.trans h.length_eq
  by_cases hgood : ∀ p ∈ m, good p
  · left
    have hentries := h.entries (fun p hp => hgood p (hperm.mem_iff.mpr hp))
    refine ⟨hgood, ?_⟩
    rw [enc_map, enc_map, ← hentries]
    exact (encEntries_congr (hperm.map entry) (nodup_entries hm)).symm
  · right
    have hbad : ¬ ∀ p ∈ l, good p := fun hall =>
      hgood (fun p hp => hall p (hperm.mem_iff.mp hp))
    refine ⟨hgood, ?_⟩
    rw [weight_enc_map, weight_enc_map, hlen, (hperm.map _).sum_eq]
    apply Nat.add_lt_add_left
    exact sum_lt_of_forall₂ (fun p q hpq => hpq.weight_le) h (fun p q hpq => hpq.weight_lt) hbad

private theorem weight_head_le : ∀ n : Fin 23, weight (writeHead 5 (UInt64.ofNat n)) ≤
    weight (writeHead 5 (UInt64.ofNat (n + 1))) := by
  decide

/-- A map that lost an entry is lighter, as long as both heads are single bytes. -/
theorem RespeltFields.weight_lt_of_drop {m l l' : Fields} {p : UInt64 × Cv}
    (hperm : m.Perm (p :: l)) (h : RespeltFields good l l') (hlen : l'.length < 23) :
    weight (enc (.map l')) < weight (enc (.map m)) := by
  have hhead := weight_head_le ⟨l'.length, hlen⟩
  have hm : m.length = l'.length + 1 := by
    rw [hperm.length_eq, List.length_cons, h.length_eq]
  have hsum := sum_le_of_forall₂ (fun p q hpq => hpq.weight_le) h
  have hdropped := entryWeight_pos p
  rw [weight_enc_map, weight_enc_map, hm, (hperm.map _).sum_eq, List.map_cons, List.sum_cons]
  dsimp only at hhead
  omega

end Maps

section Records
variable {ε ε' α β : Type} {good : UInt64 × Cv → Prop} {acc : Fields}

/-- `Record.Yields` for the received entries themselves. -/
abbrev Takes (r : FieldReader ε β) (acc : Fields) (W : β → Fields → Prop) : Prop :=
  Record.Yields id (fun p => p.2.KeysDistinct) r acc W

theorem Takes.perm [ErrorFrom CborError ε] {r : FieldReader ε β} {W : β → Fields → Prop}
    (hr : Takes r [] W) {m : Fields} {o : β} (hm : (Cv.map m).KeysDistinct)
    (h : Fields.read r (.map m) = .ok o) : ∃ l, W o l ∧ m.Perm l := by
  have hperm := perm_of_read hr hm h
  rw [List.map_id] at hperm
  exact hperm

/-- Whatever was taken before, respelt as `acc`, the reader goes on to relate its object to all
that it took. -/
def Respells (good : UInt64 × Cv → Prop) (r : FieldReader ε β) (acc : Fields)
    (W : β → Fields → Prop) : Prop :=
  ∀ ⦃taken⦄, RespeltFields good taken acc → Takes r taken W

variable {dec : Cv → Except ε' α} {put : α → Cv} {P : Cv → Prop} {k : UInt64}
  {W : β → Fields → Prop}

theorem RespeltFields.snoc {l l' : Fields} (h : RespeltFields good l l') {v w : Cv}
    (hv : Respelt (good (k, v)) v w) : RespeltFields good (l ++ [(k, v)]) (l' ++ [(k, w)]) :=
  List.rel_append h (List.Forall₂.cons ⟨rfl, hv⟩ List.Forall₂.nil)

theorem respells_req [ErrorFrom CborError ε] [ErrorFrom ε' ε] {f : α → FieldReader ε β}
    (hd : Rewrites dec put P) (hgood : ∀ v, good (k, v) ↔ P v)
    (h : ∀ a, Respells good (f a) (acc ++ [(k, put a)]) W) :
    Respells good (Fields.req k dec >>= f) acc W := by
  intro taken htaken
  refine Record.yields_field (fun v a hv ha => h a (htaken.snoc ?_))
  rw [hgood]
  exact hd hv ha

theorem respells_take [ErrorFrom ε' ε] {f : Option α → FieldReader ε β}
    (hd : Rewrites dec put P) (hgood : ∀ v, good (k, v) ↔ P v)
    (h : ∀ o, Respells good (f o) (acc ++ Fields.opt k put o) W) :
    Respells good (Fields.take k dec >>= f) acc W := by
  intro taken htaken
  refine Record.yields_optField ?_ (fun v a hv ha => h (some a) (htaken.snoc ?_))
  · have hnone := h none
    rw [Fields.opt, List.append_nil] at hnone
    exact hnone htaken
  · rw [hgood]
    exact hd hv ha

theorem respells_deny_pure [ErrorFrom CborError ε] {o : β}
    (h : ∀ taken, RespeltFields good taken acc → W o taken) :
    Respells good (Fields.denyUnknown >>= fun _ => (pure o : FieldReader ε β)) acc W := by
  intro taken htaken
  exact Record.yields_deny_pure (h taken htaken)

/-- The reader returns an object whose fields respell the entries of the map it read. -/
def RespellsFields (good : UInt64 × Cv → Prop) (r : FieldReader ε β) (fields : β → Fields) : Prop :=
  Respells good r [] (fun o l => RespeltFields good l (fields o))

end Records

section Objects
variable {ε α : Type}

/-- The entries of a map. -/
def Cv.fields : Cv → Fields
  | .map m => m
  | _ => []

theorem RespellsFields.rewrites [ErrorFrom CborError ε] {good : UInt64 × Cv → Prop} {r : FieldReader ε α}
    {fields : α → Fields} (hr : RespellsFields good r fields) :
    Rewrites (Fields.read r) (fun o => .map (fields o)) (fun cv => ∀ p ∈ cv.fields, good p) := by
  intro cv o hcv h
  cases cv with
  | map m =>
    obtain ⟨l, hl, hperm⟩ := (hr List.Forall₂.nil).perm hcv h
    exact hl.respelt (Cv.keysDistinct_map.mp hcv).1 hperm
  | _ => cases h

/-- The same for the part of the map that a signature covers. -/
theorem RespellsFields.filter [ErrorFrom CborError ε] {good : UInt64 × Cv → Prop} {r : FieldReader ε α}
    {fields : α → Fields} (hr : RespellsFields good r fields) (keep : UInt64 → Bool)
    {m : Fields} {o : α} (hm : (Cv.map m).KeysDistinct) (h : Fields.read r (.map m) = .ok o) :
    Respelt (∀ p ∈ m.filter (fun p => keep p.1), good p) (.map (m.filter (fun p => keep p.1)))
      (.map ((fields o).filter (fun p => keep p.1))) := by
  obtain ⟨l, hl, hperm⟩ := (hr List.Forall₂.nil).perm hm h
  have hnodup : ((m.filter (fun p => keep p.1)).map Prod.fst).Nodup :=
    (Cv.keysDistinct_map.mp hm).1.sublist (List.filter_sublist.map _)
  exact (hl.filter keep).respelt hnodup (hperm.filter _)

/-- Accepted bytes are the encoding of the object exactly when nothing was rewritten. -/
theorem Rewrites.encode_eq_iff {dec : Cv → Except ε α} {put : α → Cv} {P : Cv → Prop}
    (hd : Rewrites dec put P) {b : Bytes} {cv : Cv} {o : α} (hcv : decode b = .ok cv)
    (ho : dec cv = .ok o) : encode (put o) = b ↔ P cv := by
  have hback : enc cv = b := encode_of_decode hcv
  have hiff := (hd (keysDistinct_of_decode hcv) ho).enc_eq_iff
  rw [hback] at hiff
  exact hiff

end Objects
end Dmtap.Cbor
