-- Positions are ordered as words in a dictionary are: first by line, then by
-- column. The order is linear, and reading on never goes back.
import Mathlib.Order.Defs.LinearOrder
import CaplOutline.Position
import CaplOutline.Text.Units

namespace CaplOutline

/-! ## The order -/

instance : LinearOrder Position where
  le_refl p := by
    rw [Position.le_def]; omega
  le_trans p q r hpq hqr := by
    rw [Position.le_def] at *; omega
  le_antisymm p q hpq hqp := by
    rw [Position.le_def] at *
    cases p; cases q
    simp only [Position.mk.injEq] at *
    omega
  le_total p q := by
    rw [Position.le_def, Position.le_def]; omega
  lt_iff_le_not_ge p q := by
    rw [Position.lt_def, Position.le_def, Position.le_def]; omega
  toDecidableLE := inferInstance
  toDecidableEq := inferInstance
  toDecidableLT := inferInstance

theorem Position.line_le_of_le {p q : Position} (h : p ≤ q) : p.line ≤ q.line := by
  rw [Position.le_def] at h; omega

/-! ## Behind a character -/

/-- Every character moves a position on. -/
theorem Text.lt_advance (p : Position) (c : Char) (rest : List Char) :
    p < Text.advance p c rest := by
  rw [Position.lt_def]
  unfold Text.advance
  have := Text.units_pos c
  split
  · exact Or.inl (Nat.lt_succ_self _)
  · exact Or.inr ⟨rfl, by simpa using this⟩

end CaplOutline
