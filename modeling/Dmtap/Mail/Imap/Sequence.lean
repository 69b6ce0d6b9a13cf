import Dmtap.Mail.Text

/-! IMAP sequence sets. -/
namespace Dmtap.Mail.Imap

inductive Point where
  | num (n : ℕ)
  | star
  deriving DecidableEq, Repr

def Point.resolve (max : ℕ) : Point → ℕ
  | num n => n
  | star => max

def parsePoint (s : String) : Option Point :=
  let s := trim s
  if s = "*" then some .star else ((parseU32 s).filter fun n => 0 < n).map .num

/-- A list of ranges, or the reference to the saved search result. -/
structure SequenceSet where
  ranges : List (Point × Point)
  saved : Bool
  deriving DecidableEq, Repr

namespace SequenceSet

def parseRange (item : String) : Option (Point × Point) :=
  match splitOnce ':' item with
  | some (a, b) => do
    let lo ← parsePoint a
    let hi ← parsePoint b
    some (lo, hi)
  | none => (parsePoint item).map fun p => (p, p)

def parse (s : String) : Option SequenceSet :=
  if s = "" then none
  else if s = "$" then some ⟨[], true⟩
  else ((split ',' s).mapM parseRange).map fun ranges => ⟨ranges, false⟩

def isSaved (set : SequenceSet) : Bool := set.saved

def fromUids (nums : List ℕ) : SequenceSet := ⟨nums.map fun n => (.num n, .num n), false⟩

def rangesResolved (set : SequenceSet) (max : ℕ) : List (ℕ × ℕ) :=
  set.ranges.map fun r =>
    let a := r.1.resolve max
    let b := r.2.resolve max
    if a ≤ b then (a, b) else (b, a)

def contains (set : SequenceSet) (val max : ℕ) : Bool :=
  set.ranges.any fun r =>
    let a := r.1.resolve max
    let b := r.2.resolve max
    let (lo, hi) := if a ≤ b then (a, b) else (b, a)
    lo ≤ val && val ≤ hi

end SequenceSet

example : SequenceSet.parse "1:3,5,*" =
    some ⟨[(.num 1, .num 3), (.num 5, .num 5), (.star, .star)], false⟩ := by
  decide

end Dmtap.Mail.Imap
