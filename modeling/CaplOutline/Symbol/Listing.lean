-- Two ways to hand out an outline: as a tree that is cut below a level, or as a
-- flat list of all its entries in the order of the text. The roots are at level 1.
import CaplOutline.Symbol

namespace CaplOutline

namespace Symbol

/-! ## The entries of a tree with their levels -/

mutual

/-- Adds a symbol at `level`, and then all that it holds, to `done`. -/
def listFrom (done : Array (Nat × Symbol)) (level : Nat) : Symbol → Array (Nat × Symbol)
  | symbol@⟨_, _, _, _, _, children⟩ => listAllFrom (done.push (level, symbol)) (level + 1) children

def listAllFrom (done : Array (Nat × Symbol)) (level : Nat) : List Symbol → Array (Nat × Symbol)
  | [] => done
  | symbol :: symbols => listAllFrom (symbol.listFrom done level) level symbols

end

theorem toList_listAllFrom (done : Array (Nat × Symbol)) (level : Nat) (symbols : List Symbol) :
    (listAllFrom done level symbols).toList =
      done.toList ++ symbols.flatMap fun symbol => (symbol.listFrom #[] level).toList := by
  match symbols with
  | [] => simp [listAllFrom]
  | ⟨name, detail, kind, range, selection, children⟩ :: symbols =>
    simp only [listAllFrom, listFrom, List.flatMap_cons]
    rw [toList_listAllFrom _ level symbols, toList_listAllFrom _ (level + 1) children,
      toList_listAllFrom (#[].push _) (level + 1) children]
    simp

/-! ## Cutting a tree -/

mutual

/-- Keeps `levels` levels below a symbol. -/
def cut (levels : Nat) : Symbol → Symbol
  | ⟨name, detail, kind, range, selection, children⟩ =>
    match levels with
    | 0 => ⟨name, detail, kind, range, selection, []⟩
    | levels + 1 => ⟨name, detail, kind, range, selection, cutAll levels #[] children⟩

def cutAll (levels : Nat) (done : Array Symbol) : List Symbol → List Symbol
  | [] => done.toList
  | symbol :: symbols => cutAll levels (done.push (symbol.cut levels)) symbols

end

theorem cutAll_eq_map (levels : Nat) (done : Array Symbol) (symbols : List Symbol) :
    cutAll levels done symbols = done.toList ++ symbols.map (cut levels) := by
  induction symbols generalizing done with
  | nil => simp [cutAll]
  | cons symbol symbols ih => simp [cutAll, ih]

/-! ## Flat entries -/

/-- A symbol in a flat list, with the name of the symbol that holds it. -/
structure Entry where
  name : String
  kind : SymbolKind
  container : Option String
  range : Range
  deriving DecidableEq, Repr, Inhabited

mutual

/-- Adds a symbol that is held by `container`, and `levels` levels below it, to `done`. -/
def flattenFrom (done : Array Entry) (container : Option String) (levels : Nat) :
    Symbol → Array Entry
  | ⟨name, _, kind, range, _, children⟩ =>
    let done := done.push ⟨name, kind, container, range⟩
    match levels with
    | 0 => done
    | levels + 1 => flattenAllFrom done (some name) levels children

def flattenAllFrom (done : Array Entry) (container : Option String) (levels : Nat) :
    List Symbol → Array Entry
  | [] => done
  | symbol :: symbols =>
    flattenAllFrom (symbol.flattenFrom done container levels) container levels symbols

end

theorem toList_flattenAllFrom (done : Array Entry) (container : Option String) (levels : Nat)
    (symbols : List Symbol) :
    (flattenAllFrom done container levels symbols).toList =
      done.toList ++ symbols.flatMap fun symbol =>
        (symbol.flattenFrom #[] container levels).toList := by
  match symbols with
  | [] => simp [flattenAllFrom]
  | ⟨name, detail, kind, range, selection, children⟩ :: symbols =>
    simp only [flattenAllFrom, List.flatMap_cons]
    rw [toList_flattenAllFrom _ container levels symbols]
    cases levels with
    | zero => simp [flattenFrom]
    | succ levels =>
      simp only [flattenFrom]
      rw [toList_flattenAllFrom _ (some name) levels children,
        toList_flattenAllFrom (#[].push _) (some name) levels children]
      simp

end Symbol

namespace Outline

/-- All symbols of an outline with their levels, each one before those that it holds. -/
def levels (outline : Outline) : List (Nat × Symbol) := (Symbol.listAllFrom #[] 1 outline).toList

/-- The outline without the symbols that are at a level above `depth`. The roots always stay. -/
def cut (depth : Nat) (outline : Outline) : Outline := Symbol.cutAll (depth - 1) #[] outline

/-- The flat list of the symbols up to the level `depth`. The roots always stay. -/
def flatten (depth : Nat) (outline : Outline) : List Symbol.Entry :=
  (Symbol.flattenAllFrom #[] none (depth - 1) outline).toList

end Outline

end CaplOutline
