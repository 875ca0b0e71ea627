-- The outline without local variables. It is the whole outline, of which the variables that
-- are declared in code have been deleted. As long as there is room for every symbol, these
-- can be told from the outline alone but for the roots among them.
import CaplOutline.Proofs.Outline.Hiding

namespace CaplOutline.Outline

variable {lost : Option SymbolKind → Symbol → Bool}

/-! ## The whole text -/

/-- Of the variables of a text, those are lost that are declared in code. -/
structure LosesCode (lost : Option SymbolKind → Symbol → Bool) (source : String)
    (options : Options) : Prop where
  vars : LosesVars lost
  judged : ∀ machine : Machine, machine.Placed source options →
    (∀ draft ∈ drafts machine.frames, draft.kind ≠ .var) → machine.Judged lost

variable {source : String} {includeDetails : Bool}

theorem hides_start (source : String) (includeDetails : Bool) :
    Hides lost (Machine.start source ⟨true, includeDetails⟩)
      (Machine.start source ⟨false, includeDetails⟩) :=
  { source_eq := rfl
    details_eq := rfl
    shows := rfl
    hides := rfl
    frames_eq := rfl
    roots_eq := by
      unfold Machine.start
      rw [prune]
    leaves := ⟨nofun, nofun⟩
    phase_eq := rfl
    emits := rfl }

theorem Hides.judged {machine machine' : Machine} (h : Hides lost machine machine')
    {options : Options} (hplaced : machine.Placed source options)
    (hlost : LosesCode lost source options) : machine.Judged lost :=
  hlost.judged machine hplaced fun draft hmem => (h.leaves.drafts draft hmem).1

/-- Behind each token the second machine hides what it should. -/
theorem hides_run (hlost : LosesCode lost source ⟨true, includeDetails⟩) {seen after : List Token}
    (htext : Token.ofText source = seen ++ after) :
    Hides lost (Machine.run source ⟨true, includeDetails⟩ seen)
        (Machine.run source ⟨false, includeDetails⟩ seen) ∧
      (Machine.run source ⟨true, includeDetails⟩ seen).Placed source ⟨true, includeDetails⟩ := by
  refine Machine.run_induction (P := fun seen machine =>
    Hides lost machine (Machine.run source ⟨false, includeDetails⟩ seen) ∧
      machine.Placed source ⟨true, includeDetails⟩)
    ⟨hides_start source includeDetails, Machine.placed_start source _⟩ ?_ htext
  rintro seen token after htext ⟨hhides, hplaced⟩
  have htoken : token ∈ Token.ofText source := by simp [htext]
  rw [Machine.run_concat]
  refine Machine.feed_pairs (R := fun machine machine' => Hides lost machine machine' ∧
      machine.Reaches source ⟨true, includeDetails⟩ token)
    (Q := fun machine machine' => Hides lost machine machine' ∧
      machine.Placed source ⟨true, includeDetails⟩) ?_ ⟨hhides, hplaced.reaches htext⟩
  rintro machine machine' ⟨hmachine, hreaches⟩
  have hjudged := hmachine.judged hreaches.toPlaced hlost
  have hsteps : Prunes.Steps lost (machine.step token) (machine'.step token) :=
    hmachine.step hreaches.regular hlost.vars hjudged
  exact hsteps.and_ends (Machine.reaches_step hreaches htoken)

theorem extract_hidden (hlost : LosesCode lost source ⟨true, includeDetails⟩) :
    (∀ symbol ∈ extract source ⟨true, includeDetails⟩, Everywhere VarIsLeaf symbol) ∧
      extract source ⟨false, includeDetails⟩ =
        prune lost none (extract source ⟨true, includeDetails⟩) := by
  obtain ⟨hhides, hplaced⟩ := hides_run hlost (List.append_nil (Token.ofText source)).symm
  have hfinish := hhides.finish hplaced.regular hlost.vars (hhides.judged hplaced hlost)
    (Token.scan source).2.position
  exact ⟨hfinish.leaves.roots, hfinish.roots_eq⟩

/-! ## The laws -/

/-- A variable that is declared in code. -/
def isInCode (source : String) (options : Options) (_ : Option SymbolKind) (symbol : Symbol) :
    Bool :=
  symbol.kind == .var && (Machine.before source options symbol.range.start).scope == .code

/-- A variable that a function or an event handler holds, or that nothing holds though some brace is
open where it is declared. -/
def isLocal (source : String) (options : Options) (parent : Option SymbolKind) (symbol : Symbol) :
    Bool :=
  symbol.kind == .var &&
    match parent with
    | some kind => kind == .function || kind == .event
    | none => !(Machine.before source options symbol.range.start).stack.isEmpty

theorem losesCode_isInCode (source : String) (options : Options) :
    LosesCode (isInCode source options) source options := by
  refine ⟨?_, ?_⟩
  · intro parent symbol hlost
    exact beq_iff_eq.1 (Bool.and_eq_true_iff.1 hlost).1
  · intro machine hplaced _ symbol hkind hstart
    have hscope : (Machine.before source options symbol.range.start).scope = machine.scope :=
      Machine.scope_eq_of_scopes (hplaced.started _ hstart)
    unfold isInCode
    rw [hkind, hscope]
    rfl

theorem losesCode_isLocal (options : Options)
    (h : ∀ token ∈ Token.ofText source, token.depth < maxNesting) :
    LosesCode (isLocal source options) source options := by
  refine ⟨?_, ?_⟩
  · intro parent symbol hlost
    exact beq_iff_eq.1 (Bool.and_eq_true_iff.1 hlost).1
  · intro machine hplaced hkinds symbol hkind hstart
    have hscope := (hplaced.frames_scoped h).scopeOf_eq
    have hempty : (Machine.before source options symbol.range.start).stack.isEmpty =
        machine.frames.isEmpty := by
      have hlength := congrArg List.length (hplaced.started _ hstart)
      have hsize : (Machine.before source options symbol.range.start).stack.size =
          machine.stack.size := by
        simpa [Machine.scopes, Machine.frames] using hlength
      unfold Machine.frames
      rw [List.isEmpty_reverse, Array.isEmpty_toList, Array.isEmpty, Array.isEmpty, hsize]
    unfold isLocal
    rw [Machine.scope_eq_scopeOf, hscope, hkind, hempty]
    unfold parentKind
    cases hdrafts : drafts machine.frames with
    | nil => cases machine.frames <;> rfl
    | cons draft _ =>
      have hdraft := hkinds draft (by simp [hdrafts])
      change (draft.kind == .function || draft.kind == .event) = (draft.bodyScope == .code)
      unfold Draft.bodyScope
      cases hparent : draft.kind with
      | var => exact absurd hparent hdraft
      | _ => rfl

/-- Variables hold nothing, and the outline without local variables is the whole outline without the
variables that are declared in code. As long as no token is below the levels that an outline has,
these are the variables of functions and of event handlers, and those that stand inside braces but
in no symbol. -/
theorem hiding_locals_only_prunes (source : String) (includeDetails : Bool) :
    (∀ entry ∈ (extract source ⟨true, includeDetails⟩).levels,
      entry.2.kind = .var → entry.2.children = []) ∧
    extract source ⟨false, includeDetails⟩ =
      prune (isInCode source ⟨true, includeDetails⟩) none
        (extract source ⟨true, includeDetails⟩) ∧
    ((∀ token ∈ Token.ofText source, token.depth < maxNesting) →
      extract source ⟨false, includeDetails⟩ =
        prune (isLocal source ⟨true, includeDetails⟩) none
          (extract source ⟨true, includeDetails⟩)) := by
  obtain ⟨hleaves, hprune⟩ :=
    extract_hidden (losesCode_isInCode source ⟨true, includeDetails⟩)
  refine ⟨?_, hprune, ?_⟩
  · intro entry hmem
    exact Everywhere.of_mem_listAllFrom hleaves hmem
  · intro hdepth
    exact (extract_hidden (losesCode_isLocal ⟨true, includeDetails⟩ hdepth)).2

/-- Variables in a block, in braces without a name, in a handler and in a struct in it. -/
def localsText : String :=
  "variables { int a; }\n{ int b; }\non start { int c; struct S { int d; } }"

theorem the_locals_of_a_text :
    (∀ token ∈ Token.ofText localsText, token.depth < maxNesting) ∧
      extract localsText ⟨false, true⟩ =
        prune (isLocal localsText ⟨true, true⟩) none (extract localsText ⟨true, true⟩) ∧
      (extract localsText ⟨true, true⟩).levels.map (·.2.name) =
        ["variables", "a", "b", "start", "c", "S", "d"] ∧
      (extract localsText ⟨false, true⟩).levels.map (·.2.name) =
        ["variables", "a", "start", "S", "d"] := by
  have hdepth : ∀ token ∈ Token.ofText localsText, token.depth < maxNesting := by
    decide +kernel
  refine ⟨hdepth, (hiding_locals_only_prunes localsText true).2.2 hdepth, ?_, ?_⟩
  · decide +kernel
  · decide +kernel

end CaplOutline.Outline
