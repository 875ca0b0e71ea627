-- How deep an outline can go. Handlers that are opened one in the body of another get
-- a level each, and one more handler without a body gets a level below them all, even
-- if no more bodies may be opened there. So the bound on the levels cannot be lower.
import CaplOutline.Proofs.Token.Placement
import CaplOutline.Proofs.Outline.Heads
import CaplOutline.Proofs.Outline.Nesting
import CaplOutline.Proofs.Outline.Run

namespace CaplOutline.Outline

/-! ## The levels of a spine -/

namespace Spine

/-- The symbols that the next one is hung behind. -/
def innermost (spine : Spine) : List Symbol :=
  match spine.drafts with
  | [] => spine.roots
  | draft :: _ => draft.children.toList

/-- The innermost open symbol holds a symbol at this level. -/
def Reaches (level : Nat) (spine : Spine) : Prop :=
  ∃ entry ∈ (Symbol.listAllFrom #[] (spine.drafts.length + 1) spine.innermost).toList,
    entry.1 = level

theorem length_drafts_attach (spine : Spine) (symbol : Symbol) :
    (spine.attach symbol).drafts.length = spine.drafts.length := by
  obtain ⟨roots, drafts⟩ := spine
  cases drafts <;> rfl

theorem innermost_attach (spine : Spine) (symbol : Symbol) :
    (spine.attach symbol).innermost = spine.innermost ++ [symbol] := by
  obtain ⟨roots, drafts⟩ := spine
  cases drafts with
  | nil => rfl
  | cons draft drafts => simp [attach, innermost, Draft.adopt]

/-- A symbol is hung one level below the innermost open symbol. -/
theorem reaches_attach (spine : Spine) (symbol : Symbol) :
    (spine.attach symbol).Reaches (spine.drafts.length + 1) := by
  refine ⟨(spine.drafts.length + 1, symbol), ?_, rfl⟩
  rw [length_drafts_attach, innermost_attach]
  exact mem_listAllFrom.2 ⟨symbol, by simp, Or.inl rfl⟩

/-- A symbol that is closed keeps its levels. -/
theorem Reaches.pop {level : Nat} {spine : Spine} (h : spine.Reaches level)
    (includeDetails : Bool) (stop : Position) : (spine.pop includeDetails stop).Reaches level := by
  obtain ⟨roots, drafts⟩ := spine
  cases drafts with
  | nil => exact h
  | cons draft drafts =>
    obtain ⟨entry, hentry, hlevel⟩ := h
    refine ⟨entry, ?_, hlevel⟩
    unfold Spine.pop
    dsimp only
    rw [length_drafts_attach, innermost_attach]
    exact mem_listAllFrom.2 ⟨draft.finish includeDetails stop, by simp, Or.inr hentry⟩

end Spine

/-! ## Handlers in handlers -/

/-- Tokens of handlers that are opened one in the body of another, as many as the number says, and
of one more handler without a body in the last of them. -/
inductive NestedHandlers : Nat → List Token → Prop
  | unopened {first name semicolon : Token} : first.kind = .keyword .on →
      name.isEventName = true → name.line = first.line → semicolon.kind = .semicolon →
      NestedHandlers 0 [first, name, semicolon]
  | opened {bodies : Nat} {first name opening : Token} {rest : List Token} :
      first.kind = .keyword .on → name.isEventName = true → name.line = first.line →
      opening.kind = .openBrace → NestedHandlers bodies rest →
      NestedHandlers (bodies + 1) (first :: name :: opening :: rest)

/-- As long as there is room, each handler opens a level, and the last one hangs below them all. -/
theorem NestedHandlers.leads {bodies : Nat} {tokens : List Token}
    (h : NestedHandlers bodies tokens) {machine : Machine} (hsettle : machine.settle = machine)
    (hstacked : Stacked machine.frames)
    (hroom : machine.spine.drafts.length + bodies ≤ maxNesting) :
    ∃ last, Leads machine tokens last ∧ last.settle = last ∧ Stacked last.frames ∧
      last.spine.Reaches (machine.spine.drafts.length + bodies + 1) := by
  induction h generalizing machine with
  | @unopened first name semicolon hfirst hname hline hsemicolon =>
    obtain ⟨header, hread⟩ : ∃ header, Leads machine [first, name]
        (machine.readHeader (.event header)) :=
      ⟨_, leads_eventLine hsettle hfirst
        (isArgument_of_eventLine hname hline (List.forall_mem_nil _))⟩
    have hreading : Stacked (machine.readHeader (.event header)).frames := hstacked
    have hclose : (machine.readHeader (.event header)).handle semicolon = .consumed
        ((machine.readHeader (.event header)).close (header.draft machine.source)
          semicolon.range.stop) :=
      Machine.handle_eq_iff.2 (.event rfl (.semicolon hsemicolon))
    refine ⟨_, hread.trans (.one hclose), rfl, Machine.stacked_attach hreading _ _, ?_⟩
    unfold Machine.close
    rw [Machine.spine_settle, Machine.spine_attach hreading]
    exact Spine.reaches_attach machine.spine _
  | @opened bodies first name opening rest hfirst hname hline hopening _ ih =>
    obtain ⟨draft, hopens⟩ : ∃ draft, Leads machine [first, name, opening]
        (machine.push (some draft) .code) :=
      ⟨_, leads_event hsettle hfirst
        (isArgument_of_eventLine hname hline (List.forall_mem_nil _)) hopening⟩
    have hlength : (machine.push (some draft) .code).spine.drafts.length =
        machine.spine.drafts.length + 1 := by
      rw [Machine.spine_push_some hstacked, Spine.push, if_pos (by omega), List.length_cons]
    obtain ⟨last, hleads, hlast, hstacked', hreaches⟩ := ih (Machine.settle_push ..)
      (Machine.stacked_push hstacked _ _) (by rw [hlength]; omega)
    refine ⟨last, hopens.trans hleads, hlast, hstacked', ?_⟩
    rw [hlength] at hreaches
    rwa [show machine.spine.drafts.length + (bodies + 1) + 1 =
      machine.spine.drafts.length + 1 + bodies + 1 by omega]

/-- Without a header there is nothing to close at the end of a text. -/
theorem endHeader_of_settled {machine : Machine} (h : machine.settle = machine) :
    machine.endHeader = machine.leave :=
  Machine.endHeader_eq_iff.2 (.outside (Machine.phase_ne_of_settled h))

/-- Handlers in handlers make an outline with one level more than handlers that are opened. -/
theorem NestedHandlers.exists_level {bodies : Nat} {source : String}
    (h : NestedHandlers bodies (Token.ofText source)) (hroom : bodies ≤ maxNesting)
    (options : Options) : ∃ entry ∈ (extract source options).levels, entry.1 = bodies + 1 := by
  have hempty : (Machine.start source options).spine.drafts.length = 0 := rfl
  obtain ⟨last, hleads, hsettle, hstacked, hreaches⟩ :=
    h.leads rfl (Machine.regular_start source options).1 (by omega)
  rw [hempty, Nat.zero_add] at hreaches
  obtain ⟨steps, hrun⟩ := hleads.foldl_feed 0
  change Machine.run source options (Token.ofText source) = last.counting steps at hrun
  have hend : (last.counting steps).endHeader = (last.counting steps).leave :=
    endHeader_of_settled (congrArg (·.counting steps) hsettle)
  rw [← hrun] at hend
  have hstacked' :
      Stacked (Machine.run source options (Token.ofText source)).endHeader.frames := by
    rw [hend, hrun]
    exact hstacked
  have hreaches' : (Machine.run source options (Token.ofText source)).endHeader.spine.Reaches
      (bodies + 1) := by
    rw [hend, hrun]
    exact hreaches
  exact Machine.finish_invariant _ (fun _ h => h.pop _ _) hstacked' hreaches'

/-! ## A text of handlers in handlers -/

/-- The characters of a text with this many handlers in one another, on one line. -/
def handlersInHandlers : Nat → List Char
  | 0 => ['o', 'n', ' ', 'b', ';']
  | bodies + 1 => 'o' :: 'n' :: ' ' :: 'a' :: ' ' :: '{' :: handlersInHandlers bodies

/-- The word `on`, a space and a name of one letter are read as the first line of a handler. -/
theorem exists_eventLine {cursor : Cursor} {c : Char} {cs : List Char}
    (hrest : cursor.rest = 'o' :: 'n' :: ' ' :: c :: cs)
    (hgap : Gap.length (' ' :: c :: cs) = 1) (hread : Lexeme.read c cs = ⟨.identifier, 0⟩) :
    ∃ first name between behind, cursor.next = (some first, between) ∧
      between.next = (some name, behind) ∧ first.kind = .keyword .on ∧
      name.isEventName = true ∧ name.line = first.line ∧ behind.rest = cs := by
  obtain ⟨first, between, hfirst, hon, hline, hstay, hbetween⟩ :=
    Cursor.next_of_read [] hrest rfl rfl nofun
  obtain ⟨name, behind, hname, hkind, hline', -, hbehind⟩ :=
    Cursor.next_of_read [' '] hbetween hgap hread (List.forall_mem_singleton.2 rfl)
  refine ⟨first, name, between, behind, hfirst, hname, hon, ?_, ?_, hbehind⟩
  · unfold Token.isEventName
    rw [hkind]
    rfl
  · rw [hline', hstay, hline]

theorem nestedHandlers_of_reads {bodies : Nat} {cursor : Cursor}
    (hrest : cursor.rest = handlersInHandlers bodies) :
    ∃ tokens stop, cursor.Reads tokens stop ∧ NestedHandlers bodies tokens := by
  induction bodies generalizing cursor with
  | zero =>
    obtain ⟨first, name, _, _, hfirst, hname, hon, hevent, hline, hbehind⟩ :=
      exists_eventLine hrest rfl rfl
    obtain ⟨semicolon, stop, hsemicolon, hkind, -, -, hstop⟩ :=
      Cursor.next_of_read [] hbehind rfl rfl nofun
    have hend : stop.next = (none, stop) := by
      change stop.rest = [] at hstop
      unfold Cursor.next
      simp [hstop, Gap.length, runLength, Cursor.advance]
    exact ⟨_, _, .cons hfirst (.cons hname (.cons hsemicolon (.nil hend))),
      .unopened hon hevent hline hkind⟩
  | succ bodies ih =>
    obtain ⟨first, name, _, _, hfirst, hname, hon, hevent, hline, hbehind⟩ :=
      exists_eventLine hrest rfl rfl
    obtain ⟨opening, _, hopening, hkind, -, -, hinside⟩ :=
      Cursor.next_of_read [' '] hbehind rfl rfl (List.forall_mem_singleton.2 rfl)
    obtain ⟨tokens, stop, hreads, hnested⟩ := ih hinside
    exact ⟨_, _, .cons hfirst (.cons hname (.cons hopening hreads)),
      .opened hon hevent hline hkind hnested⟩

/-- There is an outline with this many levels. -/
theorem exists_level_of_handlers {bodies : Nat} (hroom : bodies ≤ maxNesting)
    (options : Options) :
    ∃ entry ∈ (extract (String.ofList (handlersInHandlers bodies)) options).levels,
      entry.1 = bodies + 1 := by
  obtain ⟨tokens, stop, hreads, hnested⟩ :=
    @nestedHandlers_of_reads bodies (.ofText (String.ofList (handlersInHandlers bodies)))
      String.toList_ofList
  rw [hreads.unique (Cursor.reads_scan _)] at hnested
  exact hnested.exists_level hroom options

/-! ## The laws -/

/-- Outlines go exactly one level below the symbols that may be open at once: some text has a symbol
there, no text has one further down, and what is there holds nothing. -/
theorem levels_go_one_below_the_open_symbols (options : Options) :
    (∀ source, ∀ entry ∈ (extract source options).levels,
      entry.1 ≤ maxNesting + 1 ∧ (entry.1 = maxNesting + 1 → entry.2.children = [])) ∧
    ∃ source, ∃ entry ∈ (extract source options).levels, entry.1 = maxNesting + 1 := by
  constructor
  · intro source entry hmem
    exact level_le hmem
  · exact ⟨_, exists_level_of_handlers (Nat.le_refl maxNesting) options⟩

/-- A handler without a body goes below the symbols that may be open at once. -/
theorem nested_handlers_go_below_the_cap :
    ¬ ∀ entry ∈ (extract (String.ofList (handlersInHandlers maxNesting)) {}).levels,
      entry.1 ≤ maxNesting := by
  intro hcapped
  obtain ⟨entry, hmem, hlevel⟩ := exists_level_of_handlers (Nat.le_refl maxNesting) {}
  have := hcapped entry hmem
  omega

end CaplOutline.Outline
