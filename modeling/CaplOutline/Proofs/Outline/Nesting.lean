-- How deep an outline goes. No more than `maxNesting` symbols are open at once, and
-- the innermost of them may still hold symbols that are never opened. So an outline
-- has one level more than symbols that are open at once, and nothing below that.
import CaplOutline.Proofs.Symbol.Marks
import CaplOutline.Proofs.Outline.Moves

namespace CaplOutline.Outline

/-! ## Forests of bounded depth -/

/-- The symbols have at most this many levels. -/
def FitsIn : Nat → List Symbol → Prop
  | 0, symbols => symbols = []
  | levels + 1, symbols => ∀ symbol ∈ symbols, FitsIn levels symbol.children

theorem fitsIn_nil (levels : Nat) : FitsIn levels [] := by
  cases levels with
  | zero => rfl
  | succ levels => exact nofun

theorem FitsIn.concat {levels : Nat} {symbols : List Symbol} {symbol : Symbol}
    (h : FitsIn (levels + 1) symbols) (hsymbol : FitsIn levels symbol.children) :
    FitsIn (levels + 1) (symbols ++ [symbol]) := by
  intro other hmem
  rcases List.mem_append.1 hmem with hmem | hmem
  · exact h other hmem
  · rw [List.mem_singleton.1 hmem]
    exact hsymbol

/-- The levels that are listed are those that the symbols have. -/
theorem FitsIn.level_lt {levels level : Nat} {symbols : List Symbol} (h : FitsIn levels symbols)
    {entry : Nat × Symbol} (hmem : entry ∈ (Symbol.listAllFrom #[] level symbols).toList) :
    entry.1 < level + levels ∧ (entry.1 + 1 = level + levels → entry.2.children = []) := by
  induction levels generalizing level symbols with
  | zero =>
    rw [show symbols = [] from h] at hmem
    simp [Symbol.listAllFrom] at hmem
  | succ levels ih =>
    obtain ⟨symbol, hsymbol, hentry⟩ := mem_listAllFrom.1 hmem
    have hchildren := h symbol hsymbol
    rcases hentry with rfl | hentry
    · refine ⟨by omega, ?_⟩
      intro hlast
      have hzero : levels = 0 := by omega
      subst hzero
      exact hchildren
    · have hlevel := ih hchildren hentry
      refine ⟨by omega, ?_⟩
      intro hlast
      exact hlevel.2 (by omega)

/-! ## The spine -/

/-- An open symbol has as many levels below it as there are left at its own level. -/
def DraftsFit : List Draft → Prop
  | [] => True
  | draft :: drafts =>
    drafts.length < maxNesting ∧ FitsIn (maxNesting - drafts.length) draft.children.toList ∧
      DraftsFit drafts

structure Spine.Fits (spine : Spine) : Prop where
  roots : FitsIn (maxNesting + 1) spine.roots
  drafts : DraftsFit spine.drafts

namespace Spine

variable {spine : Spine}

theorem Fits.attach {symbol : Symbol} (h : spine.Fits)
    (hsymbol : FitsIn (maxNesting - spine.drafts.length) symbol.children) :
    (spine.attach symbol).Fits := by
  obtain ⟨roots, drafts⟩ := spine
  obtain ⟨hroots, hdrafts⟩ := h
  cases drafts with
  | nil => exact ⟨hroots.concat hsymbol, trivial⟩
  | cons draft drafts =>
    obtain ⟨hroom, hchildren, hrest⟩ := hdrafts
    refine ⟨hroots, hroom, ?_, hrest⟩
    obtain ⟨levels, hlevels⟩ := Nat.exists_eq_add_of_lt hroom
    rw [show maxNesting - drafts.length = levels + 1 by omega] at hchildren ⊢
    have hbelow : maxNesting - (draft :: drafts).length = levels := by
      rw [List.length_cons]
      omega
    rw [hbelow] at hsymbol
    simpa [Draft.adopt] using hchildren.concat hsymbol

theorem Fits.push {draft : Draft} (h : spine.Fits) (hchildren : draft.children = #[]) :
    (spine.push draft).Fits := by
  unfold Spine.push
  by_cases hroom : spine.drafts.length < maxNesting
  · rw [if_pos hroom]
    refine ⟨h.roots, hroom, ?_, h.drafts⟩
    rw [hchildren]
    exact fitsIn_nil _
  · rwa [if_neg hroom]

theorem Fits.pop (h : spine.Fits) (includeDetails : Bool) (stop : Position) :
    (spine.pop includeDetails stop).Fits := by
  obtain ⟨roots, drafts⟩ := spine
  cases drafts with
  | nil => exact h
  | cons draft drafts =>
    obtain ⟨hroom, hchildren, hrest⟩ := h.drafts
    exact Fits.attach ⟨h.roots, hrest⟩ hchildren

theorem Fits.moves {spine' : Spine} (h : spine.Fits) (hmoves : spine.Moves spine') :
    spine'.Fits := by
  cases hmoves with
  | stay => exact h
  | attach symbol hchildren =>
    apply h.attach
    rw [hchildren]
    exact fitsIn_nil _
  | push draft hchildren => exact h.push hchildren
  | pop includeDetails stop => exact h.pop _ _

end Spine

/-! ## The whole outline -/

/-- An outline has at most one level more than symbols that may be open at once. What is at the
lowest of these levels holds nothing. -/
theorem level_le {source : String} {options : Options} {entry : Nat × Symbol}
    (hmem : entry ∈ (extract source options).levels) :
    entry.1 ≤ maxNesting + 1 ∧ (entry.1 = maxNesting + 1 → entry.2.children = []) := by
  have hfits : Spine.Fits ⟨extract source options, []⟩ :=
    Machine.extract_of_moves ⟨fitsIn_nil _, trivial⟩
      (fun _ _ hmoves hspine => hspine.moves hmoves) source options
  have hlevel := hfits.roots.level_lt hmem
  refine ⟨by omega, ?_⟩
  intro hlast
  exact hlevel.2 (by omega)

end CaplOutline.Outline
