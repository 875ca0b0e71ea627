-- The line table of a text: where each line starts. With it a byte offset is
-- turned into a position and a position into a byte offset. Both ways are total:
-- what lies outside the text, or outside its line, is moved to the nearest end.
import CaplOutline.Position
import CaplOutline.Text.Slice
import CaplOutline.Text.Blank

namespace CaplOutline.Text

/-! ## The table -/

/-- The start of each line is kept as a byte offset, in order; the first is 0. -/
structure LineTable where
  text : String
  starts : List Nat
  deriving DecidableEq, Repr

namespace LineTable

/-- Adds to `starts` the offset behind each line break of `cs`, which begins at `offset`. -/
def startsFrom (starts : Array Nat) (offset : Nat) : List Char → Array Nat
  | [] => starts
  | c :: cs =>
    let next := offset + c.utf8Size
    startsFrom (if endsLine c cs then starts.push next else starts) next cs

def of (text : String) : LineTable := ⟨text, (startsFrom #[0] 0 text.toList).toList⟩

theorem toList_startsFrom (starts : Array Nat) (offset : Nat) (cs : List Char) :
    (startsFrom starts offset cs).toList = starts.toList ++ (startsFrom #[] offset cs).toList := by
  induction cs generalizing starts offset with
  | nil => simp [startsFrom]
  | cons c cs ih =>
    simp only [startsFrom]
    rw [ih, ih (if endsLine c cs then _ else _)]
    split <;> simp

/-- A text that ends with a line break has one more line behind it, which is empty. -/
def lineCount (table : LineTable) : Nat := table.starts.length

/-! ## From bytes to positions -/

/-- The position of a byte offset. An offset behind the text counts as its end, and one in the
middle of a character has column 0. -/
def positionOf (table : LineTable) (offset : Nat) : Position :=
  let offset := min offset table.text.utf8ByteSize
  let line := (table.starts.takeWhile (· ≤ offset)).length - 1
  let start := table.starts.getD line 0
  let character :=
    if isBoundary table.text offset then unitLength (slice table.text start offset).toList else 0
  ⟨line, character⟩

/-- The position behind the last character. -/
def endPosition (table : LineTable) : Position := table.positionOf table.text.utf8ByteSize

/-! ## From positions to bytes -/

/-- Where the content of a line ends: in front of its line break, which is one byte before the next
line, or two if the break is a pair. -/
def contentEnd (table : LineTable) (line : Nat) : Nat :=
  match table.starts[line + 1]? with
  | none => table.text.utf8ByteSize
  | some next =>
    let stop := next - 1
    if charAt? table.text stop == some '\n' && table.starts.getD line 0 < stop &&
        charAt? table.text (stop - 1) == some '\r' then
      stop - 1
    else stop

/-- What a line holds without its line break. -/
def content (table : LineTable) (line : Nat) : List Char :=
  match table.starts[line]? with
  | none => []
  | some start => (slice table.text start (table.contentEnd line)).toList

/-- The byte offset of a position. A line behind the last one gives the end of the text, and a
column behind the line's content gives the end of the content. -/
def offsetOf (table : LineTable) (position : Position) : Nat :=
  match table.starts[position.line]? with
  | none => table.text.utf8ByteSize
  | some start =>
    let content := table.content position.line
    start + (byteOfUnits? position.character content).getD (byteLength content)

end LineTable

end CaplOutline.Text
