-- The entries of an outline. Each one has a name, a kind and two ranges, and
-- holds the entries that were declared inside its body.
import CaplOutline.Position

namespace CaplOutline

inductive SymbolKind where
  | function
  | event
  /-- A variable, a constant or a member of a struct or an enum. -/
  | var
  /-- A block of variables or includes, a struct or an enum. -/
  | container
  deriving DecidableEq, Repr, Inhabited

structure Symbol where
  name : String
  /-- The arguments of an event, the signature of a function, the type of a variable, or the word
  that opened a container. -/
  detail : Option String
  kind : SymbolKind
  /-- All of the declaration. -/
  range : Range
  /-- The name in it, or the word that opened it if it has no name. -/
  selection : Range
  children : List Symbol
  deriving Repr, Inhabited

/-- An outline is a list of symbols, in the order of the text. -/
abbrev Outline := List Symbol

namespace Symbol

/-! ## Equality -/

mutual

def decideEq : (a b : Symbol) → Decidable (a = b)
  | ⟨_, _, _, _, _, children⟩, ⟨_, _, _, _, _, children'⟩ =>
    have := decideAllEq children children'
    decidable_of_iff' _ (mk.injEq ..).to_iff

def decideAllEq : (as bs : List Symbol) → Decidable (as = bs)
  | [], [] => isTrue rfl
  | [], _ :: _ => isFalse nofun
  | _ :: _, [] => isFalse nofun
  | a :: as, b :: bs =>
    have := decideEq a b
    have := decideAllEq as bs
    decidable_of_iff' _ (List.cons.injEq ..).to_iff

end

instance : DecidableEq Symbol := decideEq

end Symbol

end CaplOutline
