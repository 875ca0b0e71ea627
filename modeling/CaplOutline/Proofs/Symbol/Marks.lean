-- The symbols of an outline in the order of the text, each one before those that
-- it holds, with all that is known of a symbol when its header is read: its end,
-- its detail and what it holds are left out.
import CaplOutline.Symbol.Listing

namespace CaplOutline

structure Mark where
  name : String
  kind : SymbolKind
  start : Position
  selection : Range
  deriving DecidableEq, Repr

def Symbol.mark (symbol : Symbol) : Mark :=
  ⟨symbol.name, symbol.kind, symbol.range.start, symbol.selection⟩

namespace Outline

def marks (outline : Outline) : List Mark := outline.levels.map (·.2.mark)

/-! ## What is listed -/

/-- A listing has a symbol, then all that it holds one level further down, and then the symbols
behind it. -/
theorem toList_listAllFrom_cons (level : Nat) (symbol : Symbol) (symbols : List Symbol) :
    (Symbol.listAllFrom #[] level (symbol :: symbols)).toList =
      (level, symbol) :: ((Symbol.listAllFrom #[] (level + 1) symbol.children).toList ++
        (Symbol.listAllFrom #[] level symbols).toList) := by
  obtain ⟨name, detail, kind, range, selection, children⟩ := symbol
  rw [Symbol.listAllFrom, Symbol.toList_listAllFrom, ← List.nil_append (List.flatMap _ _),
    ← Array.toList_empty, ← Symbol.toList_listAllFrom, Symbol.listFrom, Symbol.toList_listAllFrom,
    Symbol.toList_listAllFrom #[] _ children]
  simp

theorem mem_listAllFrom {level : Nat} {symbols : List Symbol} {entry : Nat × Symbol} :
    entry ∈ (Symbol.listAllFrom #[] level symbols).toList ↔
      ∃ symbol ∈ symbols, entry = (level, symbol) ∨
        entry ∈ (Symbol.listAllFrom #[] (level + 1) symbol.children).toList := by
  induction symbols with
  | nil => simp [Symbol.listAllFrom]
  | cons symbol symbols ih =>
    rw [toList_listAllFrom_cons, List.mem_cons, List.mem_append, ih]
    simp [or_assoc]

/-! ## Marks of a forest -/

/-- The marks do not depend on the level at which the listing starts. -/
theorem map_mark_listAllFrom (level level' : Nat) (symbols : List Symbol) :
    (Symbol.listAllFrom #[] level symbols).toList.map (·.2.mark) =
      (Symbol.listAllFrom #[] level' symbols).toList.map (·.2.mark) := by
  match symbols with
  | [] => rfl
  | ⟨name, detail, kind, range, selection, children⟩ :: symbols =>
    have hchildren := map_mark_listAllFrom (level + 1) (level' + 1) children
    have hsymbols := map_mark_listAllFrom level level' symbols
    simp only [toList_listAllFrom_cons, List.map_cons, List.map_append, hchildren, hsymbols]

@[simp]
theorem marks_nil : marks [] = [] := rfl

theorem marks_cons (symbol : Symbol) (symbols : List Symbol) :
    marks (symbol :: symbols) = symbol.mark :: (marks symbol.children ++ marks symbols) := by
  unfold marks levels
  rw [toList_listAllFrom_cons, List.map_cons, List.map_append, map_mark_listAllFrom (1 + 1) 1]

@[simp]
theorem marks_append (symbols symbols' : List Symbol) :
    marks (symbols ++ symbols') = marks symbols ++ marks symbols' := by
  induction symbols with
  | nil => rfl
  | cons symbol symbols ih => simp [marks_cons, ih]

end Outline

end CaplOutline
