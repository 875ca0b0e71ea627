-- What one handling of a token does to the spine. However a header ends, no more
-- than one thing happens to the symbols: one that holds nothing yet is finished or
-- opened, or the innermost open one is finished.
import CaplOutline.Proofs.Outline.Regular

namespace CaplOutline.Outline

/-- The spine after a step. -/
inductive Spine.Moves (spine : Spine) : Spine → Prop
  | stay : spine.Moves spine
  | attach (symbol : Symbol) : symbol.children = [] → spine.Moves (spine.attach symbol)
  | push (draft : Draft) : draft.children = #[] → spine.Moves (spine.push draft)
  | pop (includeDetails : Bool) (stop : Position) : spine.Moves (spine.pop includeDetails stop)

theorem Draft.children_finish {draft : Draft} (h : draft.children = #[]) (includeDetails : Bool)
    (stop : Position) : (draft.finish includeDetails stop).children = [] := by
  simp [finish, h]

namespace Machine

variable {machine : Machine} {token : Token} {step : Step}

theorem moves_attach (h : Stacked machine.frames) {draft : Draft} (hchildren : draft.children = #[])
    (stop : Position) : machine.spine.Moves (machine.attach draft stop).spine := by
  rw [spine_attach h]
  exact .attach _ (draft.children_finish hchildren _ _)

theorem moves_push (h : Stacked machine.frames) {draft : Draft} (hchildren : draft.children = #[])
    (scope : Scope) : machine.spine.Moves (machine.push (some draft) scope).spine := by
  rw [spine_push_some h]
  exact .push _ hchildren

theorem moves_pop (h : Stacked machine.frames) (stop : Position) :
    machine.spine.Moves (machine.pop stop).spine := by
  rcases spine_pop h stop with hsame | hpop
  · rw [hsame]
    exact .stay
  · rw [hpop]
    exact .pop _ _

theorem moves_report (h : Stacked machine.frames) {list : DeclaratorList}
    (hfresh : (Header.declarators list).Fresh) (stop : Position) :
    machine.spine.Moves (machine.report list stop).spine := by
  unfold report
  split
  · rename_i draft hcurrent
    split
    · refine moves_attach h ?_ stop
      exact (hfresh draft hcurrent).1
    · exact .stay
  · exact .stay

/-! ## One step -/

/-- The spine moves once, whether the token is used up or not. -/
def MovesOnce (machine : Machine) (step : Step) : Prop :=
  step.Ends (fun machine' => machine.spine.Moves machine'.spine)
    (fun machine' => machine.spine.Moves machine'.spine)

theorem ScanRule.moves {next : Machine} (hrule : machine.ScanRule token next)
    (h : Stacked machine.frames) : machine.spine.Moves next.spine := by
  cases hrule with
  | event | block | declaration | passes => exact .stay
  | opens =>
    rw [spine_push_none h]
    exact .stay
  | closes => exact moves_pop h _

theorem EventRule.moves {header : EventHeader} (hrule : machine.EventRule header token step)
    (h : Stacked machine.frames) : MovesOnce machine step := by
  have hchildren := (header.fresh_draft machine.source).1
  cases hrule with
  | body => exact moves_push h hchildren _
  | semicolon => exact moves_attach h hchildren _
  | ends => exact moves_attach h hchildren _
  | more => exact .stay

theorem DeclarationRule.moves {header : DeclarationHeader}
    (hrule : machine.DeclarationRule header token step) (h : Stacked machine.frames) :
    MovesOnce machine step := by
  cases hrule with
  | var | word | connector | function | nothing => exact .stay
  | aggregate => exact moves_push h rfl _

theorem ParametersRule.moves {list : ParameterList}
    (hrule : machine.ParametersRule list token step) : MovesOnce machine step := by
  cases hrule <;> exact .stay

theorem BodyRule.moves {draft : Draft} {last : Token}
    (hrule : machine.BodyRule draft last token step) (h : Stacked machine.frames)
    (hfresh : (Header.awaitBody draft last).Fresh) : MovesOnce machine step := by
  cases hrule with
  | body => exact moves_push h hfresh.1 _
  | semicolon => exact moves_attach h hfresh.1 _
  | ends => exact moves_attach h hfresh.1 _

theorem DeclaratorsRule.moves {list : DeclaratorList}
    (hrule : machine.DeclaratorsRule list token step) (h : Stacked machine.frames)
    (hfresh : (Header.declarators list).Fresh) : MovesOnce machine step := by
  cases hrule with
  | semicolon | ends | comma => exact moves_report h hfresh _
  | name | takes => exact .stay

theorem Rule.moves (hrule : machine.Rule token step) (h : machine.Regular) :
    MovesOnce machine step := by
  obtain ⟨hstacked, hfresh⟩ := h
  cases hrule with
  | scan _ hrule => exact hrule.moves hstacked
  | event _ hrule => exact hrule.moves hstacked
  | declaration _ hrule => exact hrule.moves hstacked
  | parameters _ hrule => exact hrule.moves
  | body hphase hrule => exact hrule.moves hstacked (hfresh _ hphase)
  | declarators hphase hrule => exact hrule.moves hstacked (hfresh _ hphase)

theorem moves_step (h : machine.Regular) (token : Token) :
    MovesOnce machine (machine.step token) :=
  (machine.step_rule token).moves h

theorem EndRule.moves {next : Machine} (hrule : machine.EndRule next) (h : machine.Regular) :
    machine.spine.Moves next.spine := by
  obtain ⟨hstacked, hfresh⟩ := h
  have hleave : Stacked machine.leave.frames := hstacked
  cases hrule with
  | outside | word | hidden => exact .stay
  | event => exact moves_attach hleave (EventHeader.fresh_draft _ _).1 _
  | function | var => exact moves_attach hleave rfl _
  | parameters hphase =>
    exact moves_attach hleave (ParameterList.fresh_signed (hfresh _ hphase) _ _).1 _
  | body hphase => exact moves_attach hleave (hfresh _ hphase).1 _
  | declarators hphase => exact moves_report hleave (hfresh _ hphase) _

/-- Neither does the end of the text do more to the header that it cuts off. -/
theorem moves_endHeader (h : machine.Regular) :
    machine.spine.Moves machine.endHeader.spine ∧ Stacked machine.endHeader.frames :=
  ⟨machine.end_rule.moves h, stacked_endHeader h.1⟩

/-! ## The whole text -/

/-- What every move of the spine keeps is kept by every token. -/
theorem feed_of_moves {P : Spine → Prop}
    (hmove : ∀ spine spine', spine.Moves spine' → P spine → P spine') (token : Token)
    (h : machine.Regular ∧ P machine.spine) :
    (machine.feed token).Regular ∧ P (machine.feed token).spine := by
  refine feed_ends (P := fun machine => machine.Regular ∧ P machine.spine)
    (Q := fun machine => machine.Regular ∧ P machine.spine) ?_ h
  intro machine hmachine
  have hnext := regular_step hmachine.1 token
  have hmoves := moves_step hmachine.1 token
  cases hstep : machine.step token with
  | consumed machine' =>
    rw [hstep] at hnext hmoves
    exact ⟨hnext, hmove _ _ hmoves hmachine.2⟩
  | retry machine' =>
    rw [hstep] at hnext hmoves
    exact ⟨hnext, hmove _ _ hmoves hmachine.2⟩

/-- And so it holds of the finished outline. -/
theorem extract_of_moves {P : Spine → Prop} (hstart : P ⟨[], []⟩)
    (hmove : ∀ spine spine', spine.Moves spine' → P spine → P spine') (source : String)
    (options : Options) : P ⟨extract source options, []⟩ := by
  obtain ⟨last, -, -, hregular, hrun⟩ := run_invariant source options
    (P := fun _ _ machine => machine.Regular ∧ P machine.spine)
    (fun _ _ token _ _ _ h => feed_of_moves hmove token h)
    ⟨regular_start source options, hstart⟩
  obtain ⟨hend, hstacked⟩ := moves_endHeader hregular
  exact finish_invariant (Token.scan source).2.position
    (fun spine hspine => hmove _ _ (.pop _ _) hspine) hstacked (hmove _ _ hend hrun)

end Machine

end CaplOutline.Outline
