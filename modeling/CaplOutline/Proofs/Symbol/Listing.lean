-- The two forms of an outline show the same symbols. A tree is known from its labels: the
-- symbols at their levels, without what they hold. A cut deletes the labels that are too deep
-- and no others, and the flat list goes through the tree that the cut has left.
import CaplOutline.Proofs.Symbol.Marks

namespace CaplOutline

/-- A symbol without what it holds. -/
def Symbol.label (symbol : Symbol) : Symbol := { symbol with children := [] }

namespace Outline

/-! ## Labels -/

/-- The labels of the symbols, and of all that they hold, if the symbols are at `level`. -/
def labelsFrom (level : Nat) (symbols : List Symbol) : List (Nat × Symbol) :=
  (Symbol.listAllFrom #[] level symbols).toList.map fun (level, symbol) => (level, symbol.label)

def labels (outline : Outline) : List (Nat × Symbol) := labelsFrom 1 outline

@[simp]
theorem labelsFrom_nil (level : Nat) : labelsFrom level [] = [] := rfl

theorem labelsFrom_cons (level : Nat) (symbol : Symbol) (symbols : List Symbol) :
    labelsFrom level (symbol :: symbols) =
      (level, symbol.label) ::
        (labelsFrom (level + 1) symbol.children ++ labelsFrom level symbols) := by
  unfold labelsFrom
  rw [toList_listAllFrom_cons, List.map_cons, List.map_append]

theorem le_of_mem_labelsFrom {level : Nat} {symbols : List Symbol} {entry : Nat × Symbol}
    (h : entry ∈ labelsFrom level symbols) : level ≤ entry.1 := by
  match symbols with
  | [] => cases h
  | ⟨name, detail, kind, range, selection, children⟩ :: symbols =>
    rw [labelsFrom_cons, List.mem_cons, List.mem_append] at h
    rcases h with rfl | h | h
    · exact Nat.le_refl _
    · have hlevel : level + 1 ≤ entry.1 := le_of_mem_labelsFrom h
      omega
    · exact le_of_mem_labelsFrom h

/-- The labels of what the first symbol holds end where the next label is at its level. -/
theorem takeWhile_labelsFrom (level : Nat) (children symbols : List Symbol) :
    (labelsFrom (level + 1) children ++ labelsFrom level symbols).takeWhile (level < ·.1) =
      labelsFrom (level + 1) children := by
  have hchildren : ∀ entry ∈ labelsFrom (level + 1) children, decide (level < entry.1) = true := by
    intro entry hentry
    simpa using Nat.lt_of_succ_le (le_of_mem_labelsFrom hentry)
  rw [List.takeWhile_append_of_pos hchildren]
  cases symbols with
  | nil => simp
  | cons symbol symbols =>
    rw [labelsFrom_cons, List.takeWhile_cons_of_neg (by simp), List.append_nil]

/-- A tree is known from its labels. -/
theorem eq_of_labelsFrom_eq {level : Nat} {symbols symbols' : List Symbol}
    (h : labelsFrom level symbols = labelsFrom level symbols') : symbols = symbols' := by
  match symbols, symbols' with
  | [], [] => rfl
  | [], symbol' :: symbols' =>
    rw [labelsFrom_cons] at h
    cases h
  | symbol :: symbols, [] =>
    rw [labelsFrom_cons] at h
    cases h
  | ⟨name, detail, kind, range, selection, children⟩ :: symbols,
    ⟨name', detail', kind', range', selection', children'⟩ :: symbols' =>
    rw [labelsFrom_cons, labelsFrom_cons, List.cons.injEq] at h
    obtain ⟨hfirst, hrest⟩ := h
    have hchildren := congrArg (List.takeWhile (level < ·.1)) hrest
    rw [takeWhile_labelsFrom, takeWhile_labelsFrom] at hchildren
    rw [hchildren] at hrest
    cases eq_of_labelsFrom_eq hchildren
    cases eq_of_labelsFrom_eq (List.append_cancel_left hrest)
    cases hfirst
    rfl

/-! ## The cut -/

/-- A cut deletes the labels that are too deep. -/
theorem labelsFrom_map_cut (level levels : Nat) (symbols : List Symbol) :
    labelsFrom level (symbols.map (Symbol.cut levels)) =
      (labelsFrom level symbols).filter (·.1 ≤ level + levels) := by
  match symbols with
  | [] => rfl
  | ⟨name, detail, kind, range, selection, children⟩ :: symbols =>
    rw [List.map_cons, labelsFrom_cons, labelsFrom_cons, labelsFrom_map_cut level levels symbols,
      List.filter_cons_of_pos (by simp), List.filter_append]
    cases levels with
    | zero =>
      have hdeep : (labelsFrom (level + 1) children).filter (·.1 ≤ level + 0) = [] := by
        rw [List.filter_eq_nil_iff]
        intro entry hentry
        have := le_of_mem_labelsFrom hentry
        simp only [decide_eq_true_eq]
        omega
      rw [hdeep]
      rfl
    | succ levels =>
      have hchildren := labelsFrom_map_cut (level + 1) levels children
      rw [Nat.add_assoc, Nat.add_comm 1] at hchildren
      rw [← hchildren]
      simp only [Symbol.cut, Symbol.cutAll_eq_map, Symbol.label]
      rfl

theorem cut_eq_map (depth : Nat) (outline : Outline) :
    outline.cut depth = outline.map (Symbol.cut (depth - 1)) := by
  rw [cut, Symbol.cutAll_eq_map]
  rfl

theorem labels_eq_filter_iff {depth : Nat} {outline tree : Outline} :
    tree.labels = outline.labels.filter (·.1 ≤ max 1 depth) ↔ tree = outline.cut depth := by
  have hcut := labelsFrom_map_cut 1 (depth - 1) outline
  rw [← cut_eq_map, show 1 + (depth - 1) = max 1 depth by omega] at hcut
  constructor
  · intro h
    exact eq_of_labelsFrom_eq (Eq.trans h hcut.symm)
  · rintro rfl
    exact hcut

/-! ## The flat list -/

mutual

/-- A symbol with the symbol that holds it, and then all that it holds itself. -/
def heldBy (holder : Option Symbol) : Symbol → List (Option Symbol × Symbol)
  | symbol@⟨_, _, _, _, _, children⟩ => (holder, symbol) :: allHeldBy (some symbol) children

def allHeldBy (holder : Option Symbol) : List Symbol → List (Option Symbol × Symbol)
  | [] => []
  | symbol :: symbols => heldBy holder symbol ++ allHeldBy holder symbols

end

/-- All symbols of an outline with the symbols that hold them, each one before those that it
holds. -/
def held (outline : Outline) : List (Option Symbol × Symbol) := allHeldBy none outline

/-- The entry of a symbol with the symbol that holds it. -/
def entry : Option Symbol × Symbol → Symbol.Entry
  | (holder, symbol) => ⟨symbol.name, symbol.kind, holder.map (·.name), symbol.range⟩

theorem toList_flattenAllFrom_cons (container : Option String) (levels : Nat) (symbol : Symbol)
    (symbols : List Symbol) :
    (Symbol.flattenAllFrom #[] container levels (symbol :: symbols)).toList =
      (symbol.flattenFrom #[] container levels).toList ++
        (Symbol.flattenAllFrom #[] container levels symbols).toList := by
  rw [Symbol.toList_flattenAllFrom, Symbol.toList_flattenAllFrom, List.flatMap_cons]
  simp

theorem toList_flattenFrom_succ (container : Option String) (levels : Nat) (symbol : Symbol) :
    (symbol.flattenFrom #[] container (levels + 1)).toList =
      ⟨symbol.name, symbol.kind, container, symbol.range⟩ ::
        (Symbol.flattenAllFrom #[] (some symbol.name) levels symbol.children).toList := by
  obtain ⟨name, detail, kind, range, selection, children⟩ := symbol
  rw [Symbol.flattenFrom, Symbol.toList_flattenAllFrom, Symbol.toList_flattenAllFrom #[]]
  simp

theorem toList_flattenAllFrom_eq (holder : Option Symbol) (levels : Nat) (symbols : List Symbol) :
    (Symbol.flattenAllFrom #[] (holder.map (·.name)) levels symbols).toList =
      (allHeldBy holder (symbols.map (Symbol.cut levels))).map entry := by
  match symbols with
  | [] => rfl
  | ⟨name, detail, kind, range, selection, children⟩ :: symbols =>
    rw [toList_flattenAllFrom_cons, toList_flattenAllFrom_eq holder levels symbols,
      List.map_cons, allHeldBy, List.map_append]
    congr 1
    cases levels with
    | zero => rfl
    | succ levels =>
      have hchildren := toList_flattenAllFrom_eq
        (some (Symbol.cut (levels + 1) ⟨name, detail, kind, range, selection, children⟩))
        levels children
      rw [toList_flattenFrom_succ]
      simp only [Symbol.cut, Symbol.cutAll_eq_map] at hchildren ⊢
      exact congrArg _ hchildren

/-- The flat list goes through the tree that the cut has left. -/
theorem flatten_eq_map (depth : Nat) (outline : Outline) :
    outline.flatten depth = (outline.cut depth).held.map entry := by
  rw [cut_eq_map]
  exact toList_flattenAllFrom_eq none (depth - 1) outline

end Outline

end CaplOutline
