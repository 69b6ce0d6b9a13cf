import Mathlib.Data.List.Basic

/-! Nested lists, written as a sequence of marks and read back. -/
namespace Dmtap.Lib

universe u

inductive Nested (α : Type u) where
  | leaf (a : α)
  | list (items : List (Nested α))

inductive Mark (α : Type u) where
  | opening
  | closing
  | leaf (a : α)

namespace Nested

variable {α : Type u}

mutual

def marks : Nested α → List (Mark α)
  | leaf a => [.leaf a]
  | list items => .opening :: (marksAll items ++ [.closing])

def marksAll : List (Nested α) → List (Mark α)
  | [] => []
  | item :: items => item.marks ++ marksAll items

end

/-- Read marks in order. The items of the list that is open are kept with the last one first, and so
are those of every list around it. -/
def readMarks : List (Mark α) → List (Nested α) → List (List (Nested α)) →
    Option (List (Nested α))
  | [], items, [] => some items.reverse
  | [], _, _ :: _ => none
  | .leaf a :: ms, items, outer => readMarks ms (leaf a :: items) outer
  | .opening :: ms, items, outer => readMarks ms [] (items :: outer)
  | .closing :: ms, items, around :: outer => readMarks ms (list items.reverse :: around) outer
  | .closing :: _, _, [] => none

def read (ms : List (Mark α)) : Option (List (Nested α)) := readMarks ms [] []

@[simp] theorem marksAll_append (xs ys : List (Nested α)) :
    marksAll (xs ++ ys) = marksAll xs ++ marksAll ys := by
  induction xs with
  | nil => rfl
  | cons x xs ih =>
    change x.marks ++ marksAll (xs ++ ys) = x.marks ++ marksAll xs ++ marksAll ys
    rw [ih, List.append_assoc]

mutual

theorem readMarks_marks (x : Nested α) (ms : List (Mark α)) (items : List (Nested α))
    (outer : List (List (Nested α))) :
    readMarks (x.marks ++ ms) items outer = readMarks ms (x :: items) outer := by
  cases x with
  | leaf a => rfl
  | list inner =>
    have hinner := readMarks_marksAll inner (.closing :: ms) [] (items :: outer)
    change readMarks (marksAll inner ++ [.closing] ++ ms) [] (items :: outer) = _
    rw [List.append_assoc, List.singleton_append, hinner, List.append_nil]
    change readMarks ms (list inner.reverse.reverse :: items) outer = _
    rw [List.reverse_reverse]

theorem readMarks_marksAll (xs : List (Nested α)) (ms : List (Mark α)) (items : List (Nested α))
    (outer : List (List (Nested α))) :
    readMarks (marksAll xs ++ ms) items outer = readMarks ms (xs.reverse ++ items) outer := by
  cases xs with
  | nil => rfl
  | cons x xs =>
    change readMarks (x.marks ++ marksAll xs ++ ms) items outer = _
    rw [List.append_assoc, readMarks_marks x, readMarks_marksAll xs, List.reverse_cons,
      List.append_assoc, List.singleton_append]

end

/-- The marks of the lists that are open. -/
def openMarks : List (List (Nested α)) → List (Mark α)
  | [] => []
  | around :: outer => openMarks outer ++ marksAll around.reverse ++ [.opening]

/-- What is read has the marks it was read from. By induction on these, with the marks of what is
open in front. -/
theorem marksAll_of_readMarks {ms : List (Mark α)} {items : List (Nested α)}
    {outer : List (List (Nested α))} {xs : List (Nested α)}
    (h : readMarks ms items outer = some xs) :
    marksAll xs = openMarks outer ++ marksAll items.reverse ++ ms := by
  fun_induction readMarks ms items outer with
  | case1 items =>
    cases h
    simp [openMarks]
  | case2 => cases h
  | case3 a ms items outer ih => simp [ih h, marksAll, marks]
  | case4 ms items outer ih => simp [ih h, openMarks, marksAll]
  | case5 ms items around outer ih => simp [ih h, openMarks, marksAll, marks]
  | case6 => cases h

theorem marksAll_of_read {ms : List (Mark α)} {xs : List (Nested α)} (h : read ms = some xs) :
    marksAll xs = ms := by
  simpa [openMarks, marksAll] using marksAll_of_readMarks h

theorem marks_subset {x : Nested α} {xs : List (Nested α)} (h : x ∈ xs) : x.marks ⊆ marksAll xs := by
  obtain ⟨front, back, rfl⟩ := List.append_of_mem h
  intro m hm
  rw [marksAll_append, marksAll]
  exact List.mem_append_right _ (List.mem_append_left _ hm)

theorem marksAll_subset (items : List (Nested α)) : marksAll items ⊆ (list items).marks := by
  intro m hm
  exact List.mem_cons_of_mem _ (List.mem_append_left _ hm)

theorem read_marksAll (xs : List (Nested α)) : read (marksAll xs) = some xs := by
  have h := readMarks_marksAll xs [] [] []
  rw [List.append_nil] at h
  unfold read
  rw [h]
  change some (xs.reverse ++ []).reverse = some xs
  rw [List.append_nil, List.reverse_reverse]

end Nested

end Dmtap.Lib
