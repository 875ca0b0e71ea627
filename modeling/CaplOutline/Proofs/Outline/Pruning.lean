-- Deleting symbols while an outline is built. What is deleted below an open symbol is seen
-- from its kind, so a symbol that is hung on it is deleted there, or is deleted in no place.
-- The numbers of the frames stay right.
import CaplOutline.Proofs.Symbol.Pruning
import CaplOutline.Proofs.Outline.Spine

namespace CaplOutline.Outline

variable {lost : Option SymbolKind → Symbol → Bool}

/-! ## Open symbols -/

/-- An open symbol without those below it that are lost. -/
def Draft.prune (lost : Option SymbolKind → Symbol → Bool) (draft : Draft) : Draft :=
  { draft with children := (Outline.prune lost (some draft.kind) draft.children.toList).toArray }

def Frame.prune (lost : Option SymbolKind → Symbol → Bool) (frame : Frame) : Frame :=
  { frame with symbol := frame.symbol.map (·.prune lost) }

theorem Draft.finish_prune (draft : Draft) (includeDetail : Bool) (stop : Position) :
    (draft.prune lost).finish includeDetail stop =
      (draft.finish includeDetail stop).prune lost := by
  unfold Draft.prune finish
  rw [Symbol.prune]

theorem Draft.prune_of_fresh {draft : Draft} (h : draft.children = #[]) :
    draft.prune lost = draft := by
  obtain ⟨name, detail, kind, start, selection, children⟩ := draft
  dsimp only at h
  subst h
  rfl

theorem Draft.prune_adopt_of_lost {draft : Draft} {symbol : Symbol}
    (h : lost (some draft.kind) symbol = true) :
    (draft.adopt symbol).prune lost = draft.prune lost := by
  unfold Draft.prune adopt
  dsimp only
  rw [Array.toList_push, prune_concat_of_lost h]

theorem Draft.prune_adopt_of_kept {draft : Draft} {symbol : Symbol}
    (h : lost (some draft.kind) symbol = false) :
    (draft.adopt symbol).prune lost = (draft.prune lost).adopt (symbol.prune lost) := by
  unfold Draft.prune adopt
  dsimp only
  rw [Array.toList_push, prune_concat_of_kept h]
  simp

/-! ## Frames -/

/-- The kind of the innermost open symbol. -/
def parentKind (frames : List Frame) : Option SymbolKind := (drafts frames).head?.map (·.kind)

theorem parentKind_cons_some {frame : Frame} {draft : Draft} (h : frame.symbol = some draft)
    (frames : List Frame) : parentKind (frame :: frames) = some draft.kind := by
  simp [parentKind, drafts, h]

theorem parentKind_cons_none {frame : Frame} (h : frame.symbol = none) (frames : List Frame) :
    parentKind (frame :: frames) = parentKind frames := by
  simp [parentKind, drafts, h]

theorem map_prune_hangOn_of_lost {frames : List Frame} {symbol : Symbol}
    (h : lost (parentKind frames) symbol = true) :
    (hangOn symbol frames).map (Frame.prune lost) = frames.map (Frame.prune lost) := by
  induction frames with
  | nil => rfl
  | cons frame frames ih =>
    unfold hangOn
    cases hsymbol : frame.symbol with
    | none =>
      rw [parentKind_cons_none hsymbol] at h
      rw [if_neg (by simp), List.map_cons, List.map_cons, ih h]
    | some draft =>
      rw [parentKind_cons_some hsymbol] at h
      rw [if_pos Option.isSome_some, List.map_cons, List.map_cons]
      congr 1
      unfold Frame.prune Frame.adopt
      rw [hsymbol]
      dsimp only [Option.map_some]
      rw [Draft.prune_adopt_of_lost h]

theorem map_prune_hangOn_of_kept {frames : List Frame} {symbol : Symbol}
    (h : lost (parentKind frames) symbol = false) :
    (hangOn symbol frames).map (Frame.prune lost) =
      hangOn (symbol.prune lost) (frames.map (Frame.prune lost)) := by
  induction frames with
  | nil => rfl
  | cons frame frames ih =>
    rw [List.map_cons]
    unfold hangOn
    cases hsymbol : frame.symbol with
    | none =>
      rw [parentKind_cons_none hsymbol] at h
      have hnone : ((Frame.prune lost frame).symbol).isSome = false := by
        simp [Frame.prune, hsymbol]
      rw [if_neg (by simp), if_neg (by simp [hnone]), List.map_cons, ih h]
    | some draft =>
      rw [parentKind_cons_some hsymbol] at h
      have hsome : ((Frame.prune lost frame).symbol).isSome = true := by
        simp [Frame.prune, hsymbol]
      rw [if_pos Option.isSome_some, if_pos hsome, List.map_cons]
      congr 1
      unfold Frame.prune Frame.adopt
      rw [hsymbol]
      dsimp only [Option.map_some]
      rw [Draft.prune_adopt_of_kept h]

theorem drafts_map_prune (frames : List Frame) :
    drafts (frames.map (Frame.prune lost)) = (drafts frames).map (Draft.prune lost) := by
  unfold drafts
  rw [List.filterMap_map, List.map_filterMap]
  rfl

theorem ownerOf_map_prune (frames : List Frame) :
    ownerOf (frames.map (Frame.prune lost)) = ownerOf frames := by
  induction frames with
  | nil => rfl
  | cons frame frames ih =>
    rw [List.map_cons]
    unfold ownerOf
    rw [ih, List.length_map]
    cases hsymbol : frame.symbol <;> simp [Frame.prune, hsymbol]

theorem Stacked.map_prune {frames : List Frame} (h : Stacked frames) :
    Stacked (frames.map (Frame.prune lost)) := by
  induction frames with
  | nil => exact h
  | cons frame frames ih =>
    obtain ⟨howner, hnesting, hmax, hrest⟩ := h
    refine ⟨?_, ?_, hmax, ih hrest⟩
    · rw [← List.map_cons, ownerOf_map_prune]
      exact howner
    · rw [← List.map_cons, drafts_map_prune, List.length_map]
      exact hnesting

/-- A frame that keeps the right numbers is known by its symbol and its scope. -/
theorem Stacked.frame_eq {frame frame' : Frame} {frames : List Frame}
    (h : Stacked (frame :: frames)) (h' : Stacked (frame' :: frames))
    (hsymbol : frame.symbol = frame'.symbol) (hscope : frame.scope = frame'.scope) :
    frame = frame' := by
  have howner : frame.owner = frame'.owner := by
    rw [h.1, h'.1]
    unfold ownerOf
    rw [hsymbol]
  have hnesting : frame.nesting = frame'.nesting := by
    rw [h.2.1, h'.2.1]
    unfold drafts
    rw [List.filterMap_cons, List.filterMap_cons, hsymbol]
  obtain ⟨symbol, scope, owner, nesting⟩ := frame
  obtain ⟨symbol', scope', owner', nesting'⟩ := frame'
  dsimp only at hsymbol hscope howner hnesting
  rw [hsymbol, hscope, howner, hnesting]

end CaplOutline.Outline
