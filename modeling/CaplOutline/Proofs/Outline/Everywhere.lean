-- A property of all symbols that the machine has made so far. Those that are closed have it,
-- and those that are open will have it when they are closed.
import CaplOutline.Proofs.Symbol.Marks
import CaplOutline.Proofs.Outline.Spine

namespace CaplOutline.Outline

/-! ## Closed symbols -/

/-- A symbol and all that it holds have a property. -/
inductive Everywhere (P : Symbol → Prop) : Symbol → Prop
  | intro {symbol : Symbol} : P symbol → (∀ child ∈ symbol.children, Everywhere P child) →
      Everywhere P symbol

theorem Everywhere.imp {P Q : Symbol → Prop} (himp : ∀ symbol, P symbol → Q symbol)
    {symbol : Symbol} (h : Everywhere P symbol) : Everywhere Q symbol := by
  induction h with
  | intro hsymbol _ ih => exact .intro (himp _ hsymbol) ih

theorem Everywhere.of_mem_listAllFrom {P : Symbol → Prop} {level : Nat} {symbols : List Symbol}
    (h : ∀ symbol ∈ symbols, Everywhere P symbol) {entry : Nat × Symbol}
    (hmem : entry ∈ (Symbol.listAllFrom #[] level symbols).toList) : P entry.2 := by
  obtain ⟨symbol, hsymbol, hentry⟩ := mem_listAllFrom.1 hmem
  cases h symbol hsymbol with
  | intro hP hchildren =>
    rcases hentry with rfl | hentry
    · exact hP
    · exact of_mem_listAllFrom hchildren hentry
termination_by sizeOf symbols
decreasing_by
  have hlt := List.sizeOf_lt_of_mem hsymbol
  cases symbol
  simp_wf
  simp at hlt
  omega

/-! ## The spine -/

/-- All symbols that are closed have the property `P`, and all that are open have the property
`Q`. -/
structure Spine.Every (P : Symbol → Prop) (Q : Draft → Prop) (spine : Spine) : Prop where
  roots : ∀ symbol ∈ spine.roots, Everywhere P symbol
  drafts : ∀ draft ∈ spine.drafts,
    Q draft ∧ ∀ child ∈ draft.children.toList, Everywhere P child

namespace Spine

variable {P P' : Symbol → Prop} {Q Q' : Draft → Prop} {spine : Spine}

theorem Every.imp (h : spine.Every P Q) (hP : ∀ symbol, P symbol → P' symbol)
    (hQ : ∀ draft, Q draft → Q' draft) : spine.Every P' Q' := by
  refine ⟨?_, ?_⟩
  · intro symbol hmem
    exact (h.roots symbol hmem).imp hP
  · intro draft hmem
    refine ⟨hQ _ (h.drafts draft hmem).1, ?_⟩
    intro child hchild
    exact ((h.drafts draft hmem).2 child hchild).imp hP

/-- An open symbol still has its property when a symbol is hung on it. -/
theorem Every.attach (h : spine.Every P Q)
    (hadopt : ∀ draft child, Q draft → Q (Draft.adopt draft child)) {symbol : Symbol}
    (hsymbol : Everywhere P symbol) : (spine.attach symbol).Every P Q := by
  obtain ⟨roots, drafts⟩ := spine
  obtain ⟨hroots, hdrafts⟩ := h
  cases drafts with
  | nil =>
    refine ⟨?_, nofun⟩
    intro other hmem
    rcases List.mem_append.1 hmem with hmem | hmem
    · exact hroots other hmem
    · rw [List.mem_singleton.1 hmem]
      exact hsymbol
  | cons draft drafts =>
    refine ⟨hroots, ?_⟩
    intro other hmem
    rcases List.mem_cons.1 hmem with rfl | hmem
    · obtain ⟨hdraft, hchildren⟩ := hdrafts draft (by simp)
      refine ⟨hadopt _ _ hdraft, ?_⟩
      intro child hchild
      simp only [Draft.adopt, Array.toList_push] at hchild
      rcases List.mem_append.1 hchild with hchild | hchild
      · exact hchildren child hchild
      · rw [List.mem_singleton.1 hchild]
        exact hsymbol
    · exact hdrafts other (List.mem_cons_of_mem _ hmem)

theorem Every.push (h : spine.Every P Q) {draft : Draft} (hchildren : draft.children = #[])
    (hdraft : Q draft) : (spine.push draft).Every P Q := by
  unfold Spine.push
  by_cases hroom : spine.drafts.length < maxNesting
  · rw [if_pos hroom]
    refine ⟨h.roots, ?_⟩
    intro other hmem
    rcases List.mem_cons.1 hmem with rfl | hmem
    · refine ⟨hdraft, ?_⟩
      rw [hchildren]
      exact nofun
    · exact h.drafts other hmem
  · rwa [if_neg hroom]

theorem Every.pop (h : spine.Every P Q)
    (hadopt : ∀ draft child, Q draft → Q (Draft.adopt draft child)) {includeDetails : Bool}
    {stop : Position} (hfinish : ∀ draft, Q draft → P (Draft.finish draft includeDetails stop)) :
    (spine.pop includeDetails stop).Every P Q := by
  obtain ⟨roots, drafts⟩ := spine
  obtain ⟨hroots, hdrafts⟩ := h
  cases drafts with
  | nil => exact ⟨hroots, hdrafts⟩
  | cons draft drafts =>
    obtain ⟨hdraft, hchildren⟩ := hdrafts draft (by simp)
    have hrest : Spine.Every P Q ⟨roots, drafts⟩ :=
      ⟨hroots, fun other hmem => hdrafts other (List.mem_cons_of_mem _ hmem)⟩
    exact hrest.attach hadopt (.intro (hfinish draft hdraft) hchildren)

end Spine

end CaplOutline.Outline
