-- What a header can be about. The symbol of a header holds nothing yet, and its
-- kind is the one that the header is read for. So a symbol is a handler only if
-- its header was opened as one.
import CaplOutline.Proofs.Outline.Run

namespace CaplOutline.Outline

/-- A symbol that holds nothing, of one of the given kinds. -/
def Draft.Fresh (draft : Draft) (kinds : List SymbolKind) : Prop :=
  draft.children = #[] ∧ draft.kind ∈ kinds

/-- Every header is about a symbol of its own kind, that holds nothing yet. -/
def Header.Fresh : Header → Prop
  | .event _ | .declaration _ => True
  | .parameters list => list.draft.Fresh [.function]
  | .awaitBody draft _ => draft.Fresh [.function, .container]
  | .declarators list => ∀ draft ∈ list.current, draft.Fresh [.var]

theorem Draft.fresh_ofTokens (kind : SymbolKind) (first : Token) (name : Option Token)
    {kinds : List SymbolKind} (h : kind ∈ kinds) : (ofTokens kind first name).Fresh kinds :=
  ⟨rfl, h⟩

theorem Draft.fresh_ofTokens_self (kind : SymbolKind) (first : Token) (name : Option Token) :
    (ofTokens kind first name).Fresh [kind] :=
  fresh_ofTokens kind first name (List.mem_singleton.2 rfl)

theorem Draft.Fresh.withDetail {draft : Draft} {kinds kinds' : List SymbolKind}
    (h : draft.Fresh kinds) (detail : Option String) (hsub : ∀ kind ∈ kinds, kind ∈ kinds') :
    Draft.Fresh { draft with detail } kinds' :=
  ⟨h.1, hsub _ h.2⟩

/-- The signature of a function changes nothing about its symbol but the detail. -/
theorem ParameterList.fresh_signed {list : ParameterList} (h : (Header.parameters list).Fresh)
    (source : String) (stop : Nat) : (list.signed source stop).Fresh [.function] :=
  Draft.Fresh.withDetail h _ (fun _ => id)

/-- The symbol of an event header. -/
theorem EventHeader.fresh_draft (header : EventHeader) (source : String) :
    (header.draft source).Fresh [.event] := ⟨rfl, by simp [draft, Draft.ofTokens]⟩

namespace Machine

/-- The frames keep the right numbers, and the header is about a symbol that holds nothing yet. -/
def Regular (machine : Machine) : Prop :=
  Stacked machine.frames ∧ ∀ header, machine.phase = .inHeader header → header.Fresh

variable {machine : Machine}

theorem settle_phase_ne (machine : Machine) (header : Header) :
    machine.settle.phase ≠ .inHeader header := by
  unfold settle
  dsimp only
  split <;> exact nofun

theorem phase_ne_of_settled (h : machine.settle = machine) (header : Header) :
    machine.phase ≠ .inHeader header := by
  rw [← h]
  exact settle_phase_ne machine header

theorem regular_settle (h : Stacked machine.frames) : machine.settle.Regular :=
  ⟨h, fun header hphase => absurd hphase (settle_phase_ne machine header)⟩

theorem regular_readHeader (h : Stacked machine.frames) {header : Header} (hfresh : header.Fresh) :
    (machine.readHeader header).Regular :=
  ⟨h, fun _ hphase => by cases hphase; exact hfresh⟩

theorem regular_push (h : Stacked machine.frames) (symbol : Option Draft) (scope : Scope) :
    (machine.push symbol scope).Regular :=
  ⟨stacked_push h _ _, fun _ hphase => by cases hphase⟩

theorem regular_close (h : Stacked machine.frames) (draft : Draft) (stop : Position) :
    (machine.close draft stop).Regular :=
  regular_settle (stacked_attach h _ _)

theorem regular_pop (h : Stacked machine.frames) (stop : Position) :
    (machine.pop stop).Regular := by
  rw [← settle_pop]
  exact regular_settle (stacked_pop h stop)

theorem stacked_report (h : Stacked machine.frames) (list : DeclaratorList) (stop : Position) :
    Stacked (machine.report list stop).frames := by
  unfold report
  split
  · split
    · exact stacked_attach h _ _
    · exact h
  · exact h

/-! ## One step -/

variable {token : Token} {step : Step}

theorem ScanRule.regular {next : Machine} (hrule : machine.ScanRule token next)
    (h : Stacked machine.frames) : next.Regular := by
  cases hrule with
  | event => exact regular_readHeader h trivial
  | block => exact regular_readHeader h (Draft.fresh_ofTokens _ _ _ (by simp))
  | declaration => exact regular_readHeader h trivial
  | opens => exact regular_push h _ _
  | closes => exact regular_pop h _
  | passes => exact regular_settle h

theorem EventRule.regular {header : EventHeader} (hrule : machine.EventRule header token step)
    (h : Stacked machine.frames) : step.Ends Regular Regular := by
  cases hrule with
  | body => exact regular_push h _ _
  | semicolon => exact regular_close h _ _
  | ends => exact regular_close h _ _
  | more => exact regular_readHeader h trivial

theorem DeclarationRule.regular {header : DeclarationHeader}
    (hrule : machine.DeclarationRule header token step) (h : Stacked machine.frames) :
    step.Ends Regular Regular := by
  cases hrule with
  | var =>
    refine regular_readHeader h ?_
    rintro draft hdraft
    cases hdraft
    exact Draft.fresh_ofTokens _ _ _ (by simp)
  | word => exact regular_readHeader h trivial
  | connector => exact regular_readHeader h trivial
  | function => exact regular_readHeader h (Draft.fresh_ofTokens _ _ _ (by simp))
  | aggregate => exact regular_push h _ _
  | nothing => exact regular_settle h

theorem ParametersRule.regular {list : ParameterList}
    (hrule : machine.ParametersRule list token step) (h : Stacked machine.frames)
    (hfresh : (Header.parameters list).Fresh) : step.Ends Regular Regular := by
  have hsigned : ∀ (stop : Nat) (last : Token),
      (machine.readHeader (.awaitBody (list.signed machine.source stop) last)).Regular :=
    fun _ _ => regular_readHeader h (Draft.Fresh.withDetail hfresh _ (by simp))
  cases hrule with
  | opens => exact regular_readHeader h hfresh
  | ends => exact hsigned _ _
  | closes => exact regular_readHeader h hfresh
  | cut => exact hsigned _ _
  | takes => exact regular_readHeader h hfresh

theorem BodyRule.regular {draft : Draft} {last : Token}
    (hrule : machine.BodyRule draft last token step) (h : Stacked machine.frames) :
    step.Ends Regular Regular := by
  cases hrule with
  | body => exact regular_push h _ _
  | semicolon => exact regular_close h _ _
  | ends => exact regular_close h _ _

theorem DeclaratorsRule.regular {list : DeclaratorList}
    (hrule : machine.DeclaratorsRule list token step) (h : Stacked machine.frames)
    (hfresh : (Header.declarators list).Fresh) : step.Ends Regular Regular := by
  cases hrule with
  | semicolon => exact regular_settle (stacked_report h _ _)
  | ends => exact regular_settle (stacked_report h _ _)
  | comma =>
    refine regular_readHeader (stacked_report h _ _) ?_
    rintro draft hdraft
    cases hdraft
  | name =>
    refine regular_readHeader h ?_
    rintro draft hdraft
    cases hdraft
    exact Draft.fresh_ofTokens _ _ _ (by simp)
  | takes => exact regular_readHeader h hfresh

theorem Rule.regular (hrule : machine.Rule token step) (h : machine.Regular) :
    step.Ends Regular Regular := by
  obtain ⟨hstacked, hfresh⟩ := h
  cases hrule with
  | scan _ hrule => exact hrule.regular hstacked
  | event _ hrule => exact hrule.regular hstacked
  | declaration _ hrule => exact hrule.regular hstacked
  | parameters hphase hrule => exact hrule.regular hstacked (hfresh _ hphase)
  | body _ hrule => exact hrule.regular hstacked
  | declarators hphase hrule => exact hrule.regular hstacked (hfresh _ hphase)

theorem regular_step (h : machine.Regular) (token : Token) :
    (machine.step token).Ends Regular Regular :=
  (machine.step_rule token).regular h

/-! ## The end of the text -/

theorem EndRule.stacked {next : Machine} (hrule : machine.EndRule next)
    (h : Stacked machine.frames) : Stacked next.frames := by
  have hleave : Stacked machine.leave.frames := h
  cases hrule with
  | outside | word | hidden => exact hleave
  | event | function | var | parameters | body => exact stacked_attach hleave _ _
  | declarators => exact stacked_report hleave _ _

theorem stacked_endHeader (h : Stacked machine.frames) : Stacked machine.endHeader.frames :=
  machine.end_rule.stacked h

/-! ## The whole text -/

theorem regular_start (source : String) (options : Options) : (start source options).Regular := by
  refine ⟨trivial, ?_⟩
  intro header hphase
  cases hphase

end Machine

end CaplOutline.Outline
