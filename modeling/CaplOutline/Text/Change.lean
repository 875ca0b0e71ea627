-- The edits that an editor sends: a new text for the whole document, or for the
-- part between two positions. The positions are those of the text before the edit.
import CaplOutline.Text.LineTable

namespace CaplOutline.Text

inductive Change where
  | fullText (text : String)
  | rangeEdit (range : Range) (text : String)
  deriving DecidableEq, Repr

namespace Change

/-- The text after the edit. The two ends of a range may come in either order. -/
def apply (text : String) : Change → String
  | fullText replacement => replacement
  | rangeEdit range replacement =>
    let table := LineTable.of text
    let a := table.offsetOf range.start
    let b := table.offsetOf range.stop
    slice text 0 (min a b) ++ replacement ++ slice text (max a b) text.utf8ByteSize

/-- Each edit of a batch is addressed in the text that the edits before it leave. -/
def applyAll (text : String) (changes : List Change) : String := changes.foldl apply text

end Change

end CaplOutline.Text
