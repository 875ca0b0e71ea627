-- The detail of a symbol: a piece of the source on one line, with single spaces
-- between its words, and cut if it is long.
import CaplOutline.Text.Blank
import CaplOutline.Text.Slice

namespace CaplOutline.Outline

open Text

/-- The most bytes of source that a detail shows. -/
def maxDetail : Nat := 120

/-- What stands behind a detail that was cut. -/
def ellipsis : String := "..."

/-- The longest front of a word that has at most `room` bytes. -/
def fit (room : Nat) : List Char → List Char
  | [] => []
  | c :: cs => if c.utf8Size ≤ room then c :: fit (room - c.utf8Size) cs else []

/-- Adds words to `done`, which is not longer than a detail, up to the first word for which there
is no room. That word is cut, and is left out if not even the space before it fits. -/
def joinWords (done : String) : List (List Char) → String
  | [] => done
  | word :: words =>
    if done ≠ "" ∧ maxDetail ≤ done.utf8ByteSize then done ++ ellipsis
    else
      let done := if done = "" then done else done ++ " "
      let room := maxDetail - done.utf8ByteSize
      if room < byteLength word then done ++ String.ofList (fit room word) ++ ellipsis
      else joinWords (done ++ String.ofList word) words

/-- A piece of source as a detail. -/
def detailOf (source : String) : String := joinWords "" (words source.toList)

end CaplOutline.Outline
