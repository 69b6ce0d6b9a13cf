import Mathlib.Data.List.Chain
import Mathlib.Data.Set.Function

/-! Segments: sets whose members occupy every position of an interval once and are linked from
each position to the next. Two segments that meet and agree where they overlap are one segment, and
chains whose links determine the predecessor are equal as far back from one end as both go. -/
namespace Dmtap.Lib

section
variable {α : Type} (pos : α → ℕ) (link : α → α → Prop)

structure Segment (s : Set α) (lo hi : ℕ) : Prop where
  le : lo ≤ hi
  within : ∀ a ∈ s, lo ≤ pos a ∧ pos a ≤ hi
  covers : ∀ k, lo ≤ k → k ≤ hi → ∃ a ∈ s, pos a = k
  unique : Set.InjOn pos s
  linked : ∀ a ∈ s, ∀ b ∈ s, pos b = pos a + 1 → link a b

variable {pos link} {s t : Set α} {lo hi a b : ℕ}

theorem segment_singleton (x : α) : Segment pos link {x} (pos x) (pos x) where
  le := le_refl _
  within := by
    rintro y rfl
    exact ⟨le_refl _, le_refl _⟩
  covers := by
    intro k hlo hhi
    exact ⟨x, rfl, le_antisymm hlo hhi⟩
  unique := Set.injOn_singleton pos x
  linked := by
    rintro y rfl z rfl h
    omega

/-- A member of one segment is a member of the other where the other has a position for it. -/
theorem Segment.mem_of_agree (ht : Segment pos link t a b)
    (hagree : ∀ x ∈ s, ∀ y ∈ t, pos x = pos y → x = y) {x : α} (hx : x ∈ s) (hlo : a ≤ pos x)
    (hhi : pos x ≤ b) : x ∈ t := by
  obtain ⟨y, hy, hpos⟩ := ht.covers (pos x) hlo hhi
  rw [hagree x hx y hy hpos.symm]
  exact hy

/-- `t` starts at most one past the end of `s` and does not end before it. -/
theorem Segment.glue (hs : Segment pos link s lo hi) (ht : Segment pos link t a b)
    (hmeet : a ≤ hi + 1) (hend : hi ≤ b) (hagree : ∀ x ∈ s, ∀ y ∈ t, pos x = pos y → x = y)
    (hjoin : a = hi + 1 → ∀ x ∈ s, pos x = hi → ∀ y ∈ t, pos y = a → link x y) :
    Segment pos link (s ∪ t) (min lo a) b := by
  have hagree' : ∀ y ∈ t, ∀ x ∈ s, pos y = pos x → y = x := by
    intro y hy x hx hpos
    exact (hagree x hx y hy hpos.symm).symm
  have hlohi := hs.le
  have hab := ht.le
  constructor
  · omega
  · intro x hx
    rcases hx with hx | hx
    · have hpos := hs.within x hx
      omega
    · have hpos := ht.within x hx
      omega
  · intro k hlo hhi
    by_cases hk : a ≤ k
    · obtain ⟨x, hx, hpos⟩ := ht.covers k hk hhi
      exact ⟨x, Or.inr hx, hpos⟩
    · obtain ⟨x, hx, hpos⟩ := hs.covers k (by omega) (by omega)
      exact ⟨x, Or.inl hx, hpos⟩
  · intro x hx y hy hpos
    rcases hx with hx | hx
    · rcases hy with hy | hy
      · exact hs.unique hx hy hpos
      · exact hagree x hx y hy hpos
    · rcases hy with hy | hy
      · exact hagree' x hx y hy hpos
      · exact ht.unique hx hy hpos
  · intro x hx y hy hpos
    rcases hx with hx | hx
    · have hxpos := hs.within x hx
      rcases hy with hy | hy
      · exact hs.linked x hx y hy hpos
      · by_cases hin : pos y ≤ hi
        · exact hs.linked x hx y (hs.mem_of_agree hagree' hy (by omega) hin) hpos
        · have hypos := ht.within y hy
          by_cases hstart : a ≤ hi
          · exact ht.linked x (ht.mem_of_agree hagree hx (by omega) (by omega)) y hy hpos
          · exact hjoin (by omega) x hx (by omega) y hy (by omega)
    · have hxpos := ht.within x hx
      rcases hy with hy | hy
      · have hypos := hs.within y hy
        exact ht.linked x hx y (ht.mem_of_agree hagree hy (by omega) (by omega)) hpos
      · exact ht.linked x hx y hy hpos

/-- A nonempty list that steps by one position along the links is a segment. -/
theorem segment_of_isChain {x : α} {l : List α}
    (h : (x :: l).IsChain (fun a b => pos b = pos a + 1 ∧ link a b)) :
    Segment pos link {a | a ∈ x :: l} (pos x) (pos ((x :: l).getLast (List.cons_ne_nil x l))) := by
  induction l generalizing x with
  | nil =>
    have hset : {a | a ∈ [x]} = ({x} : Set α) := by
      ext a
      simp
    rw [hset]
    exact segment_singleton x
  | cons y l ih =>
    obtain ⟨⟨hpos, hlink⟩, hrest⟩ := List.isChain_cons_cons.mp h
    have htail := ih hrest
    have hset : {a | a ∈ x :: y :: l} = ({x} : Set α) ∪ {a | a ∈ y :: l} := by
      ext a
      simp
    have hmin : min (pos x) (pos y) = pos x := by omega
    have hle := htail.le
    have hglue := (segment_singleton x).glue htail (by omega) (by omega)
      (fun a ha b hb heq => ?_) (fun _ a ha _ b hb hb' => ?_)
    · rw [hset, List.getLast_cons_cons]
      rw [hmin] at hglue
      exact hglue
    · have hb' := htail.within b hb
      rw [Set.mem_singleton_iff.mp ha] at heq
      omega
    · have hby : b = y := htail.unique hb List.mem_cons_self hb'
      rw [Set.mem_singleton_iff.mp ha, hby]
      exact hlink

end

section Ends
variable {α : Type} {R : α → α → Prop}

/-- Two chains from one element are equal as far as both go, when the next element is determined. -/
theorem prefix_or_prefix_of_isChain {x : α} {l l' : List α}
    (hR : ∀ a ∈ l, ∀ a' ∈ l', ∀ b, R b a → R b a' → a = a') (h : (x :: l).IsChain R)
    (h' : (x :: l').IsChain R) : l <+: l' ∨ l' <+: l := by
  induction l generalizing x l' with
  | nil => exact Or.inl List.nil_prefix
  | cons a l ih =>
    cases l' with
    | nil => exact Or.inr List.nil_prefix
    | cons a' l' =>
      obtain ⟨ha, hrest⟩ := List.isChain_cons_cons.mp h
      obtain ⟨ha', hrest'⟩ := List.isChain_cons_cons.mp h'
      have heq : a = a' := hR a List.mem_cons_self a' List.mem_cons_self x ha ha'
      subst heq
      rcases ih (fun c hc c' hc' => hR c (List.mem_cons_of_mem _ hc) c' (List.mem_cons_of_mem _ hc'))
        hrest hrest' with hpre | hpre
      · exact Or.inl (List.cons_prefix_cons.mpr ⟨rfl, hpre⟩)
      · exact Or.inr (List.cons_prefix_cons.mpr ⟨rfl, hpre⟩)

/-- Two chains that end in one element, when the element before is determined. -/
theorem suffix_or_suffix_of_isChain {x : α} {l l' : List α} (hlast : l.getLast? = some x)
    (hlast' : l'.getLast? = some x) (hR : ∀ a ∈ l, ∀ a' ∈ l', ∀ b, R a b → R a' b → a = a')
    (h : l.IsChain R) (h' : l'.IsChain R) : l <:+ l' ∨ l' <:+ l := by
  obtain ⟨before, rfl⟩ := List.getLast?_eq_some_iff.mp hlast
  obtain ⟨before', rfl⟩ := List.getLast?_eq_some_iff.mp hlast'
  have hrev : ∀ m : List α, (m ++ [x]).IsChain R →
      (x :: m.reverse).IsChain (fun a b => R b a) := by
    intro m hm
    rw [← List.reverse_concat]
    exact List.isChain_reverse.mpr hm
  have hpre := prefix_or_prefix_of_isChain
    (fun a ha a' ha' b => hR a (List.mem_append_left _ (List.mem_reverse.mp ha)) a'
      (List.mem_append_left _ (List.mem_reverse.mp ha')) b) (hrev before h) (hrev before' h')
  rw [List.reverse_prefix, List.reverse_prefix] at hpre
  have hsnoc : ∀ {m m' : List α}, m <:+ m' → m ++ [x] <:+ m' ++ [x] := by
    rintro m _ ⟨t, rfl⟩
    exact ⟨t, (List.append_assoc t m [x]).symm⟩
  exact hpre.imp hsnoc hsnoc

end Ends
end Dmtap.Lib
