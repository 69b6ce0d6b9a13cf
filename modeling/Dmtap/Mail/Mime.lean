import Dmtap.Lib.Bytes

/-! Raw messages: where the header ends, and the lines of a message. -/
namespace Dmtap.Mail
open Lib

/-- The number of bytes up to the end of the first empty line. -/
def bodyOffset : Bytes → ℕ
  | [] => 0
  | b :: raw =>
    if b = 10 then
      match raw with
      | 10 :: _ => 2
      | 13 :: 10 :: _ => 3
      | _ => bodyOffset raw + 1
    else bodyOffset raw + 1

def headerAndBody (raw : Bytes) : Bytes × Bytes :=
  (raw.take (bodyOffset raw), raw.drop (bodyOffset raw))

/-- Lines with their line feeds. -/
def splitInclusive : Bytes → List Bytes
  | [] => []
  | b :: raw =>
    if b = 10 then [b] :: splitInclusive raw
    else
      match splitInclusive raw with
      | [] => [[b]]
      | line :: lines => (b :: line) :: lines

example : headerAndBody [65, 13, 10, 13, 10, 66] = ([65, 13, 10, 13, 10], [66]) := by decide

end Dmtap.Mail
