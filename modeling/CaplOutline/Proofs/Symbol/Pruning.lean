-- Deleting symbols from an outline. Whether a symbol is deleted is seen from the kind of
-- the symbol that holds it, and from itself. What is left keeps its place, its order and
-- all that it says.
import CaplOutline.Symbol

namespace CaplOutline

mutual

/-- The symbol without those below it that are lost. -/
def Symbol.prune (lost : Option SymbolKind → Symbol → Bool) : Symbol → Symbol
  | ⟨name, detail, kind, range, selection, children⟩ =>
    ⟨name, detail, kind, range, selection, Outline.prune lost (some kind) children⟩

/-- The symbols that a symbol of the kind `parent` holds, or that no symbol holds, without those
that are lost. -/
def Outline.prune (lost : Option SymbolKind → Symbol → Bool) (parent : Option SymbolKind) :
    List Symbol → List Symbol
  | [] => []
  | symbol :: symbols =>
    if lost parent symbol then Outline.prune lost parent symbols
    else symbol.prune lost :: Outline.prune lost parent symbols

end

variable {lost : Option SymbolKind → Symbol → Bool} {parent : Option SymbolKind}

theorem Outline.prune_append (symbols symbols' : List Symbol) :
    prune lost parent (symbols ++ symbols') =
      prune lost parent symbols ++ prune lost parent symbols' := by
  induction symbols with
  | nil => rfl
  | cons symbol symbols ih =>
    rw [List.cons_append, prune, prune, ih]
    split <;> rfl

theorem Outline.prune_concat_of_lost {symbol : Symbol} (h : lost parent symbol = true)
    (symbols : List Symbol) :
    prune lost parent (symbols ++ [symbol]) = prune lost parent symbols := by
  rw [prune_append, prune, if_pos h, prune, List.append_nil]

theorem Outline.prune_concat_of_kept {symbol : Symbol} (h : lost parent symbol = false)
    (symbols : List Symbol) :
    prune lost parent (symbols ++ [symbol]) =
      prune lost parent symbols ++ [symbol.prune lost] := by
  rw [prune_append, prune, if_neg (by simp [h]), prune]

end CaplOutline
