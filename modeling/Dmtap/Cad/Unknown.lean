import Dmtap.Cad.Objects

/-! Keys that the profile does not define. The readers pass over them, and what was read does not
carry them, so they are kept on writing only where there were none. -/
namespace Dmtap.Cad
open Dmtap.Lib Dmtap.Cbor

/-- Where an object has a map: the object itself, the value at a key, and an item of the array at a
key. -/
inductive Place
  | top
  | field (k : UInt64)
  | item (k : UInt64) (j : ℕ)

/-- The entries of a map. -/
def entriesOf : Cv → Fields
  | .map m => m
  | _ => []

def itemsOf : Cv → List Cv
  | .array a => a
  | _ => []

/-- An entry of the map at some place. -/
def EntryAt (cv : Cv) (p : UInt64 × Cv) : Place → Prop
  | .top => p ∈ entriesOf cv
  | .field k => ∃ v, (k, v) ∈ entriesOf cv ∧ p ∈ entriesOf v
  | .item k j => ∃ a v, (k, a) ∈ entriesOf cv ∧ (itemsOf a)[j]? = some v ∧ p ∈ entriesOf v

section Profiles

/-- The keys that a profile defines at the places where it has maps. -/
abbrev Profile := Place → Option (List UInt64)

/-- The maps of artifact metadata: their own, that of the units, and those of the formats. -/
def metadataProfile : Profile
  | .top => some [1, 2, 3, 4, 5, 6, 7, 8, 9, 10]
  | .field k => if k = 5 then some [1, 2, 3] else none
  | .item k _ => if k = 4 then some [1, 2, 3, 4, 5] else none

/-- The maps of an assembly: its own and those of the children. -/
def assemblyProfile : Profile
  | .top => some [1]
  | .field _ => none
  | .item k _ => if k = 1 then some [1, 2, 3, 4] else none

variable (profile : Profile)

/-- Every entry with a key that the profile does not define is still there. -/
def KeepsUnknown (cv cv' : Cv) : Prop :=
  ∀ place keys, profile place = some keys → ∀ p, EntryAt cv p place → p.1 ∉ keys →
    EntryAt cv' p place

/-- The maps have no keys but those that the profile defines. -/
def Known (cv : Cv) : Prop :=
  ∀ place keys, profile place = some keys → ∀ p, EntryAt cv p place → p.1 ∈ keys

variable {profile} {cv cv' : Cv}

theorem keepsUnknown_iff (h : Known profile cv') : KeepsUnknown profile cv cv' ↔ Known profile cv := by
  constructor
  · intro hkeeps place keys hplace p hp
    by_contra hunknown
    exact hunknown (h place keys hplace p (hkeeps place keys hplace p hp hunknown))
  · intro hknown place keys hplace p hp hunknown
    exact absurd (hknown place keys hplace p hp) hunknown

end Profiles

section Written

/-- The keys of a map that is written with some of the keys `l`. -/
def KeysIn (m : Fields) (l : List UInt64) : Prop := ∀ p ∈ m, p.1 ∈ l

theorem keysIn_append {m m' : Fields} {l : List UInt64} (h : KeysIn m l) (h' : KeysIn m' l) :
    KeysIn (m ++ m') l := by
  intro p hp
  rcases List.mem_append.mp hp with hmem | hmem
  · exact h p hmem
  · exact h' p hmem

theorem keysIn_opt {α : Type} {k : UInt64} {put : α → Cv} {o : Option α} {l : List UInt64}
    (hk : k ∈ l) : KeysIn (Fields.opt k put o) l := by
  rintro ⟨k', v⟩ hp
  rw [(Fields.mem_opt.mp hp).1]
  exact hk

theorem keysIn_ite {c : Prop} [Decidable c] {m m' : Fields} {l : List UInt64} (h : KeysIn m l)
    (h' : KeysIn m' l) : KeysIn (if c then m else m') l := by
  split_ifs
  · exact h
  · exact h'

theorem Units.keysIn (u : Units) : KeysIn u.toFields [1, 2, 3] := by
  refine keysIn_append (keysIn_append ?_ (keysIn_opt (by decide))) (keysIn_opt (by decide))
  simp [KeysIn]

theorem ArtifactFormat.keysIn (f : ArtifactFormat) : KeysIn f.toFields [1, 2, 3, 4, 5] := by
  refine keysIn_append (keysIn_append ?_ (keysIn_opt (by decide))) (keysIn_opt (by decide))
  simp [KeysIn]

theorem AssemblyChild.keysIn (c : AssemblyChild) : KeysIn c.toFields [1, 2, 3, 4] := by
  refine keysIn_append ?_ (keysIn_opt (by decide))
  simp [KeysIn]

theorem ArtifactMetadata.keysIn (a : ArtifactMetadata) :
    KeysIn a.toFields [1, 2, 3, 4, 5, 6, 7, 8, 9, 10] := by
  have hnil : KeysIn [] [1, 2, 3, 4, 5, 6, 7, 8, 9, 10] := fun p hp => (nomatch hp)
  refine keysIn_append (keysIn_append (keysIn_append (keysIn_append (keysIn_append ?_ ?_) ?_) ?_)
    (keysIn_opt (by decide))) (keysIn_opt (by decide))
  · simp [KeysIn]
  · exact keysIn_ite hnil (by simp [KeysIn])
  · simp [KeysIn]
  · exact keysIn_ite (by simp [KeysIn]) hnil

theorem ArtifactMetadata.value_at_formats (a : ArtifactMetadata) {v : Cv}
    (h : ((4, v) : UInt64 × Cv) ∈ a.toFields) : v = .array (a.formats.map ArtifactFormat.toCv) := by
  simpa [toFields, Fields.mem_opt] using h

theorem ArtifactMetadata.value_at_units (a : ArtifactMetadata) {v : Cv}
    (h : ((5, v) : UInt64 × Cv) ∈ a.toFields) : v = a.units.toCv := by
  simpa [toFields, Fields.mem_opt] using h

/-- An item of a written array is a written item. -/
theorem exists_of_getElem?_map {α : Type} {put : α → Cv} {l : List α} {j : ℕ} {v : Cv}
    (h : (itemsOf (.array (l.map put)))[j]? = some v) : ∃ a ∈ l, v = put a := by
  change (l.map put)[j]? = some v at h
  rw [List.getElem?_map] at h
  obtain ⟨a, ha, rfl⟩ := Option.map_eq_some_iff.mp h
  exact ⟨a, List.mem_of_getElem? ha, rfl⟩

/-- What is written has no keys but those of the profile. -/
theorem ArtifactMetadata.known (a : ArtifactMetadata) : Known metadataProfile a.toCv := by
  intro place keys hplace p hp
  cases place with
  | top =>
    obtain rfl := Option.some.inj hplace
    exact a.keysIn p hp
  | field k =>
    obtain ⟨v, hv, hp⟩ := hp
    unfold metadataProfile at hplace
    dsimp only at hplace
    split_ifs at hplace with hk
    obtain rfl := Option.some.inj hplace
    have hunits : v = a.units.toCv := a.value_at_units (hk ▸ hv)
    rw [hunits] at hp
    exact a.units.keysIn p hp
  | item k j =>
    obtain ⟨v, f, hv, hf, hp⟩ := hp
    unfold metadataProfile at hplace
    dsimp only at hplace
    split_ifs at hplace with hk
    obtain rfl := Option.some.inj hplace
    have hformats : v = .array (a.formats.map ArtifactFormat.toCv) := a.value_at_formats (hk ▸ hv)
    rw [hformats] at hf
    obtain ⟨f, -, rfl⟩ := exists_of_getElem?_map hf
    exact f.keysIn p hp

theorem AssemblyStructure.known (s : AssemblyStructure) : Known assemblyProfile s.toCv := by
  intro place keys hplace p hp
  cases place with
  | top =>
    obtain rfl := Option.some.inj hplace
    have hone : p = (1, .array (s.children.map AssemblyChild.toCv)) := List.mem_singleton.mp hp
    rw [hone]
    exact List.mem_singleton.mpr rfl
  | field k => cases hplace
  | item k j =>
    obtain ⟨v, c, hv, hc, hp⟩ := hp
    unfold assemblyProfile at hplace
    dsimp only at hplace
    split_ifs at hplace with hk
    obtain rfl := Option.some.inj hplace
    have hone := List.mem_singleton.mp hv
    rw [(Prod.mk.inj hone).2] at hc
    obtain ⟨c, -, rfl⟩ := exists_of_getElem?_map hc
    exact c.keysIn p hp

end Written
section Main

/-- Accepted bytes are written back with all their unknown keys exactly when they have none. -/
theorem unknown_keys_kept_iff (b : Bytes) :
    (∀ a cv, ArtifactMetadata.fromDetCbor b = .ok a → decode b = .ok cv →
      (KeepsUnknown metadataProfile cv a.toCv ↔ Known metadataProfile cv)) ∧
    ∀ s cv, AssemblyStructure.fromDetCbor b = .ok s → decode b = .ok cv →
      (KeepsUnknown assemblyProfile cv s.toCv ↔ Known assemblyProfile cv) :=
  ⟨fun a _ _ _ => keepsUnknown_iff a.known, fun s _ _ _ => keepsUnknown_iff s.known⟩

def onePart : AssemblyStructure := ⟨[⟨pin, ⟨[mhBlake3]⟩, 1, none⟩]⟩

theorem unknown_keys_kept_one_part :
    AssemblyStructure.fromDetCbor onePart.detCbor = .ok onePart ∧
      KeepsUnknown assemblyProfile onePart.toCv onePart.toCv := by
  have hread : AssemblyStructure.fromDetCbor onePart.detCbor = .ok onePart := rfl
  have hdecode : decode onePart.detCbor = .ok onePart.toCv := rfl
  exact ⟨hread, ((unknown_keys_kept_iff _).2 onePart _ hread hdecode).mpr onePart.known⟩

/-- The same assembly with the first of the reserved keys. -/
def reserved : Cv := .map (onePart.toFields ++ [(64, .u64 0)])

/-- A reserved key is read and not written back. -/
theorem reserved_key_dropped :
    AssemblyStructure.fromDetCbor (encode reserved) = .ok onePart ∧
      decode (encode reserved) = .ok reserved ∧ decode onePart.detCbor = .ok onePart.toCv ∧
      ¬ KeepsUnknown assemblyProfile reserved onePart.toCv := by
  refine ⟨rfl, rfl, rfl, fun hkeeps => ?_⟩
  have hthere : EntryAt reserved (64, .u64 0) .top :=
    List.mem_append_right _ (List.mem_singleton.mpr rfl)
  have hkept := hkeeps .top [1] rfl (64, .u64 0) hthere (by decide)
  have hkey : (64 : UInt64) = 1 := (Prod.mk.inj (List.mem_singleton.mp hkept)).1
  exact absurd hkey (by decide)

end Main
end Dmtap.Cad
