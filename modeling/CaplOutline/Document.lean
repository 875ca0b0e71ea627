-- One open document: its text, the version that the editor gave it, and how many
-- batches of edits came too late.
import CaplOutline.Text.Change

namespace CaplOutline

structure Document where
  id : String
  version : Int
  text : String
  /-- The number of batches that were dropped because they were not newer than the text. -/
  staleEdits : Nat
  deriving DecidableEq, Repr, Inhabited

/-- What became of a batch of edits. -/
inductive ChangeOutcome where
  | applied (version : Int)
  /-- The batch was dropped: its version is not newer than the current one. -/
  | stale (current received : Int)
  deriving DecidableEq, Repr, Inhabited

namespace Document

def new (id text : String) (version : Int) : Document := ⟨id, version, text, 0⟩

/-- The text with its version, at one point in time. -/
def snapshot (document : Document) : String × Int := (document.text, document.version)

/-- A batch is applied if its version is newer, and otherwise is only counted. It is applied as a
whole or not at all. -/
def change (document : Document) (version : Int) (changes : List Text.Change) :
    ChangeOutcome × Document :=
  if version ≤ document.version then
    (.stale document.version version, { document with staleEdits := document.staleEdits + 1 })
  else
    (.applied version,
      { document with text := Text.Change.applyAll document.text changes, version })

end Document

end CaplOutline
