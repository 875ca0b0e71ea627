-- Places in a text as an editor names them: a line and a column, both from
-- zero. A column counts UTF-16 code units from the start of the line.

namespace CaplOutline

/-! ## Positions -/

structure Position where
  line : Nat
  character : Nat
  deriving DecidableEq, Repr, Inhabited

namespace Position

/-- The first place of every text. -/
def origin : Position := ⟨0, 0⟩

/-- One position comes before another if its line does, or on the same line its column. -/
instance : LT Position where
  lt p q := p.line < q.line ∨ (p.line = q.line ∧ p.character < q.character)

instance : LE Position where
  le p q := p.line < q.line ∨ (p.line = q.line ∧ p.character ≤ q.character)

theorem lt_def {p q : Position} :
    p < q ↔ p.line < q.line ∨ (p.line = q.line ∧ p.character < q.character) := Iff.rfl

theorem le_def {p q : Position} :
    p ≤ q ↔ p.line < q.line ∨ (p.line = q.line ∧ p.character ≤ q.character) := Iff.rfl

instance (p q : Position) : Decidable (p < q) := decidable_of_iff' _ lt_def

instance (p q : Position) : Decidable (p ≤ q) := decidable_of_iff' _ le_def

end Position

/-! ## Ranges -/

/-- The places from `start` up to, and not with, `stop`. -/
structure Range where
  start : Position
  stop : Position
  deriving DecidableEq, Repr, Inhabited

end CaplOutline
