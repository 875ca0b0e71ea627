-- The marks of the symbols that the machine has made so far, closed or open, in
-- the order of the text. A symbol gets its place when it is opened or attached, and
-- closing an open symbol moves nothing.
import CaplOutline.Proofs.Symbol.Marks
import CaplOutline.Proofs.Outline.Regular

namespace CaplOutline.Outline

namespace Draft

def mark (draft : Draft) : Mark := ⟨draft.name, draft.kind, draft.start, draft.selection⟩

/-- The mark of an open symbol, and those of all that it holds. -/
def marks (draft : Draft) : List Mark := draft.mark :: Outline.marks draft.children.toList

theorem marks_adopt (draft : Draft) (symbol : Symbol) :
    (draft.adopt symbol).marks = draft.marks ++ symbol.mark :: Outline.marks symbol.children := by
  simp [marks, adopt, mark, marks_cons]

/-- The marks of a symbol that is attached, if it holds nothing. -/
theorem Fresh.marks_finish {draft : Draft} {kinds : List SymbolKind} (h : draft.Fresh kinds)
    (includeDetails : Bool) (stop : Position) :
    (draft.finish includeDetails stop).mark ::
      Outline.marks (draft.finish includeDetails stop).children = [draft.mark] := by
  simp [finish, h.1, Symbol.mark, mark]

end Draft

namespace Spine

def marks (spine : Spine) : List Mark :=
  Outline.marks spine.roots ++ spine.drafts.reverse.flatMap Draft.marks

theorem marks_attach (spine : Spine) (symbol : Symbol) :
    (spine.attach symbol).marks =
      spine.marks ++ symbol.mark :: Outline.marks symbol.children := by
  obtain ⟨roots, drafts⟩ := spine
  cases drafts with
  | nil => simp [marks, attach, marks_cons]
  | cons draft drafts => simp [marks, attach, Draft.marks_adopt]

@[simp]
theorem marks_pop (spine : Spine) (includeDetails : Bool) (stop : Position) :
    (spine.pop includeDetails stop).marks = spine.marks := by
  obtain ⟨roots, drafts⟩ := spine
  cases drafts with
  | nil => rfl
  | cons draft drafts =>
    unfold pop
    dsimp only
    rw [marks_attach]
    simp [marks, Draft.marks, Draft.finish, Symbol.mark, Draft.mark]

theorem marks_push {spine : Spine} (h : spine.drafts.length < maxNesting) {draft : Draft}
    (hchildren : draft.children = #[]) :
    (spine.push draft).marks = spine.marks ++ [draft.mark] := by
  unfold push
  rw [if_pos h]
  simp [marks, Draft.marks, hchildren]

theorem marks_push_of_full {spine : Spine} (h : ¬ spine.drafts.length < maxNesting)
    (draft : Draft) : (spine.push draft).marks = spine.marks := by
  unfold push
  rw [if_neg h]

end Spine

namespace Machine

/-- A finished symbol that holds nothing adds its own mark. -/
theorem marks_attach {machine : Machine} (hstacked : Stacked machine.frames) {draft : Draft}
    {kinds : List SymbolKind} (h : draft.Fresh kinds) (stop : Position) :
    (machine.attach draft stop).spine.marks = machine.spine.marks ++ [draft.mark] := by
  rw [spine_attach hstacked, Spine.marks_attach, h.marks_finish]

theorem marks_pop {machine : Machine} (hstacked : Stacked machine.frames) (stop : Position) :
    (machine.pop stop).spine.marks = machine.spine.marks := by
  rcases spine_pop hstacked stop with h | h
  · rw [h]
  · rw [h, Spine.marks_pop]

end Machine

end CaplOutline.Outline
