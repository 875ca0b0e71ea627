-- Changing what all symbols of an outline say in one field, at every level. The shape of
-- the outline and all other fields stay.
import CaplOutline.Symbol

namespace CaplOutline

mutual

/-- The symbol and all below it, each with another detail and another end. -/
def Symbol.revise (detail : Option String → Option String) (stop : Position → Position) :
    Symbol → Symbol
  | ⟨name, text, kind, range, selection, children⟩ =>
    ⟨name, detail text, kind, ⟨range.start, stop range.stop⟩, selection,
      Outline.revise detail stop children⟩

def Outline.revise (detail : Option String → Option String) (stop : Position → Position) :
    List Symbol → List Symbol
  | [] => []
  | symbol :: symbols => symbol.revise detail stop :: Outline.revise detail stop symbols

end

variable {detail : Option String → Option String} {stop : Position → Position}

theorem Outline.revise_eq_map (symbols : List Symbol) :
    revise detail stop symbols = symbols.map (Symbol.revise detail stop) := by
  induction symbols with
  | nil => rfl
  | cons symbol symbols ih => rw [revise, ih, List.map_cons]

theorem Outline.revise_append (symbols symbols' : List Symbol) :
    revise detail stop (symbols ++ symbols') =
      revise detail stop symbols ++ revise detail stop symbols' := by
  simp only [revise_eq_map, List.map_append]

end CaplOutline
