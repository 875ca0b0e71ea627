-- What the user may set: what an outline shows, how deep it goes, and whether the
-- editor sends edits or whole texts.
import CaplOutline.Outline.Machine

namespace CaplOutline

structure SymbolSettings where
  includeLocals : Bool := false
  includeDetails : Bool := true
  /-- The deepest level that is sent. The roots are at level 1. -/
  maxDepth : Nat := 32
  deriving DecidableEq, Repr, Inhabited

structure SyncSettings where
  /-- The editor sends edits, and not the whole text on every change. -/
  incremental : Bool := true
  deriving DecidableEq, Repr, Inhabited

structure Settings where
  symbols : SymbolSettings := {}
  sync : SyncSettings := {}
  deriving DecidableEq, Repr, Inhabited

namespace SymbolSettings

def options (settings : SymbolSettings) : Outline.Options :=
  { includeLocals := settings.includeLocals, includeDetails := settings.includeDetails }

/-- There is always one level, and no outline has more levels than a machine builds. -/
def clampDepth (depth : Nat) : Nat := max 1 (min depth Outline.maxNesting)

end SymbolSettings

end CaplOutline
