-- The names of an outline are taken from its text. A header keeps the tokens that it
-- has read to itself until it ends, so that every symbol is selected by a token of its
-- own, and the selections follow one another as the tokens do.
import CaplOutline.Proofs.Outline.Citing
import CaplOutline.Proofs.Outline.Ranges
import CaplOutline.Proofs.Token.Words

namespace CaplOutline

/-! ## Quotations -/

/-- The text that is selected for a symbol. -/
def Symbol.quoted (source : String) (symbol : Symbol) : String :=
  let table := Text.LineTable.of source
  Text.slice source (table.offsetOf symbol.selection.start) (table.offsetOf symbol.selection.stop)

/-- The symbol starts with the token `first`, is selected by the token `name`, and has the text that
is selected for a name. A handler, a struct or an enum without a name is selected by the word that
opens it. -/
structure Symbol.Quotes (source : String) (first name : Token) (symbol : Symbol) : Prop where
  start_eq : symbol.range.start = first.range.start
  starts : symbol.kind.StartsWith first name
  selection_eq : symbol.selection = name.range
  name_eq :
    if symbol.name = Outline.unnamed then
      (symbol.kind = .event ∨ symbol.kind = .container) ∧ first = name ∧
        symbol.quoted source ∈ ["on", "struct", "enum"]
    else symbol.quoted source = symbol.name ∧ (name.isWord = true ∨ name.text = "*")

/-- No name in a text looks like the one of a symbol without a name. -/
theorem Token.Spelled.ne_unnamed {token : Token} (h : token.Spelled)
    (hname : token.isWord = true ∨ token.text = "*") : token.text ≠ Outline.unnamed := by
  intro htext
  rcases hname with hword | hstar
  · have hchar := (h hword).1 '<' (by rw [htext]; decide)
    exact absurd hchar (by decide)
  · rw [hstar] at htext
    exact absurd htext (by decide)

theorem Token.Spelled.text_mem {token : Token} (h : token.Spelled)
    (hkind : token.kind ∈ [.keyword .on, .keyword .struct, .keyword .enum]) :
    token.text ∈ ["on", "struct", "enum"] := by
  have hword : token.isWord = true := by
    simp only [List.mem_cons, List.not_mem_nil, or_false] at hkind
    unfold Token.isWord
    rcases hkind with hkind | hkind | hkind <;> rw [hkind] <;> rfl
  have hspelling := (h hword).2
  cases hkeyword : Keyword.ofWord? token.text with
  | none =>
    rw [hkeyword] at hspelling
    simp [hspelling] at hkind
  | some keyword =>
    rw [hkeyword] at hspelling
    refine Keyword.spelling_of_ofWord? hkeyword ?_
    simpa [hspelling] using hkind

/-- Tokens that stand in the source give a symbol what it quotes. -/
theorem Mark.Cites.quotes {source : String} {symbol : Symbol} {before after : List Token}
    {name : Token} (h : symbol.mark.Cites before name)
    (htokens : Token.ofText source = before ++ name :: after) :
    ∃ first ∈ before ++ [name], symbol.Quotes source first name := by
  have hmem : name ∈ Token.ofText source := by
    rw [htokens]
    simp
  have hspelled := Token.spelled_of_mem hmem
  obtain ⟨hselection, first, hfirst, hstart, hkind, hname⟩ := h
  have hquoted : symbol.quoted source = name.text := by
    change symbol.selection = name.range at hselection
    unfold Symbol.quoted
    rw [hselection]
    exact (Token.standsIn_of_mem hmem).slice_range
  refine ⟨first, hfirst, hstart, hkind, hselection, ?_⟩
  rw [hquoted]
  rcases hname with ⟨htext, hword⟩ | ⟨hnone, hkinds, rfl, hkeyword⟩
  · change symbol.name = name.text at htext
    rw [htext, if_neg (hspelled.ne_unnamed hword)]
    exact ⟨rfl, hword⟩
  · change symbol.name = Outline.unnamed at hnone
    rw [if_pos hnone]
    exact ⟨hkinds, rfl, hspelled.text_mem hkeyword⟩

namespace Outline

/-! ## Headers -/

/-- The symbol of a header has its name and its start from the tokens of the header, `own`. -/
def Header.Cites (own : List Token) : Header → Prop
  | .event header =>
    (∃ rest, own = header.first :: rest) ∧ header.first.kind = .keyword .on ∧
      ∀ name ∈ header.name, name ∈ own ∧ (name.isWord = true ∨ name.text = "*")
  | .declaration header =>
    (∃ rest, own = header.first :: rest) ∧ header.first.kind.opensDeclaration = true ∧
      (2 ≤ header.words → header.name.isSome = true) ∧
      ∀ name ∈ header.name, name ∈ own ∧ name.isWord = true
  | .parameters list => list.draft.mark.Cited own
  | .awaitBody draft _ => draft.mark.Cited own
  | .declarators list => ∀ draft ∈ list.current, draft.mark.Cited own

def Phase.Cites (own : List Token) : Phase → Prop
  | .inHeader header => header.Cites own
  | _ => True

theorem opensDeclaration_iff {kind : TokenKind} : kind.opensDeclaration = true ↔
    kind ∈ [.keyword .type, .keyword .functionMarker, .keyword .struct, .keyword .enum] := by
  cases kind with
  | keyword word => cases word <;> simp [TokenKind.opensDeclaration]
  | _ => simp [TokenKind.opensDeclaration]

theorem isFunction_iff {header : DeclarationHeader} :
    header.isFunction = true ↔ header.first.kind = .keyword .functionMarker := by
  simp [DeclarationHeader.isFunction]

theorem aggregate?_isSome_iff {header : DeclarationHeader} : header.aggregate?.isSome = true ↔
    header.first.kind = .keyword .struct ∨ header.first.kind = .keyword .enum := by
  unfold DeclarationHeader.aggregate?
  split <;> simp_all

@[simp]
theorem EventHeader.last_add (header : EventHeader) (token : Token) :
    (header.add token).last = token := by
  unfold add
  split <;> rfl

section Cites

variable {own : List Token} {token : Token}

theorem Header.Cites.event_draft {header : EventHeader} (h : (Header.event header).Cites own)
    (source : String) : (header.draft source).mark.Cited own := by
  obtain ⟨⟨rest, rfl⟩, hfirst, hname⟩ := h
  refine Draft.cited_ofTokens (fun _ => hfirst) hname ?_
  intro hnone
  exact ⟨Or.inl rfl, by simp [hfirst]⟩

/-- What follows the first words of a declaration is a function, if it may be one. -/
theorem Header.Cites.function_draft {header : DeclarationHeader}
    (h : (Header.declaration header).Cites own) (hwords : 2 ≤ header.words) :
    (Draft.ofTokens .function header.first header.name).mark.Cited own := by
  obtain ⟨⟨rest, rfl⟩, hfirst, hsome, hname⟩ := h
  refine Draft.cited_ofTokens (fun _ => opensDeclaration_iff.1 hfirst) ?_ ?_
  · intro name hmem
    exact ⟨(hname name hmem).1, Or.inl (hname name hmem).2⟩
  · intro hnone
    rw [hnone] at hsome
    exact absurd (hsome hwords) nofun

theorem Header.Cites.var_draft {header : DeclarationHeader}
    (h : (Header.declaration header).Cites own) (hwords : 2 ≤ header.words)
    (hfunction : header.isFunction = false) :
    (Draft.ofTokens .var header.first header.name).mark.Cited own := by
  obtain ⟨⟨rest, rfl⟩, hfirst, hsome, hname⟩ := h
  have hkind : header.first.kind ≠ .keyword .functionMarker := by
    intro hmarker
    rw [isFunction_iff.2 hmarker] at hfunction
    cases hfunction
  refine Draft.cited_ofTokens (fun _ => Or.inl ?_) ?_ ?_
  · have hopens := opensDeclaration_iff.1 hfirst
    simp only [List.mem_cons, List.not_mem_nil, or_false] at hopens ⊢
    tauto
  · intro name hmem
    exact ⟨(hname name hmem).1, Or.inl (hname name hmem).2⟩
  · intro hnone
    rw [hnone] at hsome
    exact absurd (hsome hwords) nofun

theorem Header.Cites.container_draft {header : DeclarationHeader}
    (h : (Header.declaration header).Cites own) (haggregate : header.aggregate?.isSome = true) :
    (Draft.ofTokens .container header.first header.name).mark.Cited own := by
  obtain ⟨⟨rest, rfl⟩, -, -, hname⟩ := h
  have hkind := aggregate?_isSome_iff.1 haggregate
  refine Draft.cited_ofTokens (fun _ => ?_) ?_ ?_
  · rcases hkind with hkind | hkind <;> simp [SymbolKind.StartsWith, hkind]
  · intro name hmem
    exact ⟨(hname name hmem).1, Or.inl (hname name hmem).2⟩
  · intro hnone
    refine ⟨Or.inr rfl, ?_⟩
    rcases hkind with hkind | hkind <;> simp [hkind]

/-- A token that opens a block stands for all of its header. -/
theorem cited_block (hkind : token.kind = .keyword .variableBlock ∨
    token.kind = .keyword .includeBlock) :
    (Draft.ofTokens .container token token).mark.Cited [token] := by
  refine Draft.cited_ofTokens (fun _ => ?_) ?_ nofun
  · rcases hkind with hkind | hkind <;> simp [SymbolKind.StartsWith, hkind]
  · intro name hmem
    cases hmem
    refine ⟨by simp, Or.inl ?_⟩
    rcases hkind with hkind | hkind <;> simp [Token.isWord, TokenKind.isWord, hkind]

/-- A declarator behind a comma starts with its name. -/
theorem cited_declarator (hword : token.isWord = true) :
    (Draft.ofTokens .var token (some token)).mark.Cited [token] := by
  refine ⟨[], token, [], rfl, rfl, token, by simp, rfl, Or.inr rfl, Or.inl ⟨rfl, Or.inl hword⟩⟩

/-- The tokens that follow change nothing of what a header cites. -/
theorem Header.Cites.append {header : Header} (h : header.Cites own) (more : List Token) :
    header.Cites (own ++ more) := by
  cases header with
  | event header =>
    obtain ⟨⟨rest, rfl⟩, hfirst, hname⟩ := h
    refine ⟨⟨rest ++ more, rfl⟩, hfirst, ?_⟩
    intro name hmem
    exact ⟨List.mem_append_left _ (hname name hmem).1, (hname name hmem).2⟩
  | declaration header =>
    obtain ⟨⟨rest, rfl⟩, hfirst, hsome, hname⟩ := h
    refine ⟨⟨rest ++ more, rfl⟩, hfirst, hsome, ?_⟩
    intro name hmem
    exact ⟨List.mem_append_left _ (hname name hmem).1, (hname name hmem).2⟩
  | parameters list => exact Mark.Cited.append h more
  | awaitBody draft last => exact Mark.Cited.append h more
  | declarators list =>
    intro draft hmem
    exact (h draft hmem).append more

/-- A token of a header may become the name of a handler. -/
theorem Header.Cites.event_add {header : EventHeader} (h : (Header.event header).Cites own) :
    (Header.event (header.add token)).Cites (own ++ [token]) := by
  obtain ⟨hown, hfirst, hname⟩ := h.append [token]
  unfold EventHeader.add
  split
  · rename_i hnew
    simp only [Bool.and_eq_true, Bool.or_eq_true, beq_iff_eq] at hnew
    refine ⟨hown, hfirst, ?_⟩
    intro name hmem
    cases hmem
    exact ⟨by simp, hnew.2⟩
  · exact ⟨hown, hfirst, hname⟩

end Cites

namespace Machine

/-! ## What the machine tells of the tokens it has seen -/

/-- The tokens up to the header have been passed, and the rest are the header's own. -/
structure Told (stop : Position) (seen : List Token) (machine : Machine) : Prop where
  regular : machine.Regular
  tells : ∃ passed own, seen = passed ++ own ∧ machine.spine.Tells stop passed ∧
    machine.phase.Cites own
  last : ∀ header, machine.phase = .inHeader header → seen.getLast? = some header.last

variable {machine : Machine} {token : Token} {stop : Position} {seen passed own : List Token}

/-- Outside a header there are no tokens that wait for their symbol. -/
theorem told_of_no_header (h : Stacked machine.frames) (htells : machine.spine.Tells stop seen)
    (hphase : ∀ header, machine.phase ≠ .inHeader header) : machine.Told stop seen := by
  refine ⟨⟨h, ?_⟩, ⟨seen, [], by simp, htells, ?_⟩, ?_⟩
  · intro header hheader
    exact absurd hheader (hphase header)
  · cases hmachine : machine.phase with
    | inHeader header => exact absurd hmachine (hphase header)
    | _ => trivial
  · intro header hheader
    exact absurd hheader (hphase header)

theorem push_phase_ne (machine : Machine) (symbol : Option Draft) (scope : Scope)
    (header : Header) : (machine.push symbol scope).phase ≠ .inHeader header := by
  intro hphase
  cases hphase

theorem told_settle (h : Stacked machine.frames) (htells : machine.spine.Tells stop seen) :
    machine.settle.Told stop seen :=
  told_of_no_header h htells (settle_phase_ne machine)

theorem told_readHeader (h : Stacked machine.frames) (htells : machine.spine.Tells stop passed)
    {header : Header} (hfresh : header.Fresh) (hcites : header.Cites own)
    (hlast : (passed ++ own).getLast? = some header.last) :
    (machine.readHeader header).Told stop (passed ++ own) := by
  refine ⟨regular_readHeader h hfresh, ⟨passed, own, rfl, htells, hcites⟩, ?_⟩
  intro header' hphase
  cases hphase
  exact hlast

theorem told_push (h : Stacked machine.frames) (htells : machine.spine.Tells stop passed)
    {draft : Draft} (hchildren : draft.children = #[]) (hmark : draft.mark.Cited own)
    (scope : Scope) : (machine.push (some draft) scope).Told stop (passed ++ own) := by
  refine told_of_no_header (stacked_push h _ _) ?_ (push_phase_ne machine _ _)
  rw [spine_push_some h]
  exact htells.push hchildren hmark

theorem tells_attach (h : Stacked machine.frames) (htells : machine.spine.Tells stop passed)
    {draft : Draft} {kinds : List SymbolKind} (hfresh : draft.Fresh kinds)
    (hmark : draft.mark.Cited own) {last : Token} (hlast : (passed ++ own).getLast? = some last) :
    (machine.attach draft last.range.stop).spine.Tells stop (passed ++ own) := by
  rw [spine_attach h]
  exact htells.attach hfresh hmark (Or.inl ⟨last, hlast, rfl⟩) _

theorem told_close (h : Stacked machine.frames) (htells : machine.spine.Tells stop passed)
    {draft : Draft} {kinds : List SymbolKind} (hfresh : draft.Fresh kinds)
    (hmark : draft.mark.Cited own) {last : Token} (hlast : (passed ++ own).getLast? = some last) :
    (machine.close draft last.range.stop).Told stop (passed ++ own) :=
  told_settle (stacked_attach h _ _) (tells_attach h htells hfresh hmark hlast)

theorem told_pop (h : Stacked machine.frames) (htells : machine.spine.Tells stop seen)
    {last : Token} (hlast : seen.getLast? = some last) :
    (machine.pop last.range.stop).Told stop seen := by
  rw [← settle_pop]
  refine told_settle (stacked_pop h _) ?_
  rcases spine_pop h last.range.stop with hsame | hpop
  · rw [hsame]
    exact htells
  · rw [hpop]
    exact htells.pop (Or.inl ⟨last, hlast, rfl⟩) _

theorem tells_report (h : Stacked machine.frames) (htells : machine.spine.Tells stop passed)
    {list : DeclaratorList} (hfresh : (Header.declarators list).Fresh)
    (hcites : (Header.declarators list).Cites own) {last : Token}
    (hlast : (passed ++ own).getLast? = some last) :
    (machine.report list last.range.stop).spine.Tells stop (passed ++ own) := by
  unfold report
  split
  · rename_i draft hcurrent
    split
    · have hdraft : Draft.Fresh { draft with detail := list.typeText } [.var] :=
        (hfresh draft hcurrent).withDetail _ (fun _ => id)
      exact tells_attach h htells hdraft (hcites draft hcurrent) hlast
    · exact htells.append own
  · exact htells.append own

/-! ## One step -/

/-- A step tells of the tokens seen, and of its own token if it uses it up. -/
def Tells (stop : Position) (seen : List Token) (token : Token) (step : Step) : Prop :=
  step.Ends (Told stop seen) (Told stop (seen ++ [token]))

theorem ScanRule.told {next : Machine} (hrule : machine.ScanRule token next)
    (h : Stacked machine.frames) (htells : machine.spine.Tells stop seen) :
    next.Told stop (seen ++ [token]) := by
  have hlast : (seen ++ [token]).getLast? = some token := by simp
  cases hrule with
  | event hkind => exact told_readHeader h htells trivial ⟨⟨[], rfl⟩, hkind, nofun⟩ hlast
  | block hkind =>
    exact told_readHeader h htells (Draft.fresh_ofTokens _ _ _ (by simp)) (cited_block hkind) hlast
  | declaration hopens =>
    refine told_readHeader h htells trivial ⟨⟨[], rfl⟩, hopens, ?_, nofun⟩ hlast
    intro hwords
    exact absurd hwords (by simp [DeclarationHeader.ofToken])
  | opens =>
    refine told_of_no_header (stacked_push h _ _) ?_ (push_phase_ne machine _ _)
    rw [spine_push_none h]
    exact htells.append [token]
  | closes => exact told_pop h (htells.append [token]) hlast
  | passes => exact told_settle h (htells.append [token])

section Rules

variable {step : Step} (h : Stacked machine.frames) (htells : machine.spine.Tells stop passed)

include h htells

theorem EventRule.tells {header : EventHeader} (hrule : machine.EventRule header token step)
    (hcites : (Header.event header).Cites own)
    (hlast : (passed ++ own).getLast? = some header.last) :
    Tells stop (passed ++ own) token step := by
  have hlast' : (passed ++ (own ++ [token])).getLast? = some token := by simp
  have hfresh := header.fresh_draft machine.source
  have hmark := hcites.event_draft machine.source
  unfold Tells
  rw [List.append_assoc]
  cases hrule with
  | body => exact told_push h htells hfresh.1 (hmark.append [token]) _
  | semicolon => exact told_close h htells hfresh (hmark.append [token]) hlast'
  | ends => exact told_close h htells hfresh hmark hlast
  | more =>
    refine told_readHeader h htells trivial hcites.event_add ?_
    simp [Header.last]

theorem DeclarationRule.tells {header : DeclarationHeader}
    (hrule : machine.DeclarationRule header token step)
    (hcites : (Header.declaration header).Cites own)
    (hlast : (passed ++ own).getLast? = some header.last) :
    Tells stop (passed ++ own) token step := by
  have hlast' : (passed ++ (own ++ [token])).getLast? = some token := by simp
  have hmore := hcites.append [token]
  unfold Tells
  rw [List.append_assoc]
  cases hrule with
  | var hdeclarator =>
    simp only [DeclarationHeader.hasDeclarator, Bool.and_eq_true, decide_eq_true_eq,
      Bool.not_eq_true'] at hdeclarator
    refine told_readHeader h htells ?_ ?_ hlast
    · intro draft hmem
      cases hmem
      exact Draft.fresh_ofTokens _ _ _ (by simp)
    · intro draft hmem
      cases hmem
      exact hcites.var_draft hdeclarator.1 hdeclarator.2
  | word _ _ hword =>
    refine told_readHeader h htells trivial ?_ hlast'
    refine ⟨hmore.1, hmore.2.1, fun _ => rfl, ?_⟩
    intro name hmem
    cases hmem
    exact ⟨by simp, hword⟩
  | connector => exact told_readHeader h htells trivial hmore hlast'
  | function _ hwords =>
    exact told_readHeader h htells (Draft.fresh_ofTokens _ _ _ (by simp))
      (hmore.function_draft hwords) hlast'
  | aggregate _ haggregate =>
    refine told_push h htells ?_ ?_ _
    · rfl
    · exact hmore.container_draft haggregate
  | nothing => exact told_settle h (htells.append own)

theorem ParametersRule.tells {list : ParameterList} (hrule : machine.ParametersRule list token step)
    (hfresh : (Header.parameters list).Fresh) (hcites : (Header.parameters list).Cites own)
    (hlast : (passed ++ own).getLast? = some list.last) :
    Tells stop (passed ++ own) token step := by
  have hlast' : (passed ++ (own ++ [token])).getLast? = some token := by simp
  have hmore : list.draft.mark.Cited (own ++ [token]) := Mark.Cited.append hcites [token]
  have hsigned : ∀ end_, (list.signed machine.source end_).Fresh [.function, .container] :=
    fun _ => Draft.Fresh.withDetail hfresh _ (by simp)
  unfold Tells
  rw [List.append_assoc]
  cases hrule with
  | opens | closes | takes => exact told_readHeader h htells hfresh hmore hlast'
  | ends => exact told_readHeader h htells (hsigned _) hmore hlast'
  | cut => exact told_readHeader h htells (hsigned _) hcites hlast

theorem BodyRule.tells {draft : Draft} {last : Token}
    (hrule : machine.BodyRule draft last token step) (hfresh : (Header.awaitBody draft last).Fresh)
    (hcites : (Header.awaitBody draft last).Cites own)
    (hlast : (passed ++ own).getLast? = some last) : Tells stop (passed ++ own) token step := by
  have hlast' : (passed ++ (own ++ [token])).getLast? = some token := by simp
  have hmore : draft.mark.Cited (own ++ [token]) := Mark.Cited.append hcites [token]
  unfold Tells
  rw [List.append_assoc]
  cases hrule with
  | body => exact told_push h htells hfresh.1 hmore _
  | semicolon => exact told_close h htells hfresh hmore hlast'
  | ends => exact told_close h htells hfresh hcites hlast

theorem DeclaratorsRule.tells {list : DeclaratorList}
    (hrule : machine.DeclaratorsRule list token step) (hfresh : (Header.declarators list).Fresh)
    (hcites : (Header.declarators list).Cites own)
    (hlast : (passed ++ own).getLast? = some list.last) :
    Tells stop (passed ++ own) token step := by
  have hlast' : (passed ++ (own ++ [token])).getLast? = some token := by simp
  have hmore := hcites.append [token]
  unfold Tells
  cases hrule with
  | semicolon =>
    rw [List.append_assoc]
    exact told_settle (stacked_report h _ _) (tells_report h htells hfresh hmore hlast')
  | ends => exact told_settle (stacked_report h _ _) (tells_report h htells hfresh hcites hlast)
  | comma =>
    -- The variable is reported, and the header starts anew behind it.
    refine told_readHeader (stacked_report h _ _)
      (tells_report h htells hfresh hcites hlast) ?_ ?_ ?_
    · exact nofun
    · exact nofun
    · simp [Header.last, DeclaratorList.add]
  | name _ _ _ hword =>
    refine told_readHeader h (htells.append own) ?_ ?_ ?_
    · intro draft hmem
      cases hmem
      exact Draft.fresh_ofTokens _ _ _ (by simp)
    · intro draft hmem
      cases hmem
      exact cited_declarator hword
    · simp [Header.last, DeclaratorList.add]
  | takes =>
    rw [List.append_assoc]
    exact told_readHeader h htells hfresh hmore hlast'

end Rules

theorem Rule.tells {step : Step} (hrule : machine.Rule token step)
    (htold : machine.Told stop seen) : Tells stop seen token step := by
  obtain ⟨⟨h, hfresh⟩, ⟨passed, own, rfl, htells, hcites⟩, hlast⟩ := htold
  cases hrule with
  | scan _ hrule => exact hrule.told h (htells.append own)
  | event hphase hrule =>
    rw [hphase] at hcites
    exact hrule.tells h htells hcites (hlast _ hphase)
  | declaration hphase hrule =>
    rw [hphase] at hcites
    exact hrule.tells h htells hcites (hlast _ hphase)
  | parameters hphase hrule =>
    rw [hphase] at hcites
    exact hrule.tells h htells (hfresh _ hphase) hcites (hlast _ hphase)
  | body hphase hrule =>
    rw [hphase] at hcites
    exact hrule.tells h htells (hfresh _ hphase) hcites (hlast _ hphase)
  | declarators hphase hrule =>
    rw [hphase] at hcites
    exact hrule.tells h htells (hfresh _ hphase) hcites (hlast _ hphase)

theorem told_step (htold : machine.Told stop seen) (token : Token) :
    Tells stop seen token (machine.step token) :=
  (machine.step_rule token).tells ⟨htold.regular, htold.tells, htold.last⟩

/-! ## The whole text -/

theorem told_start (source : String) (options : Options) (stop : Position) :
    (start source options).Told stop [] := by
  refine told_of_no_header trivial ⟨List.nil_sublist _, ?_, nofun⟩ ?_
  · intro symbol hmem
    cases hmem
  · intro header hphase
    cases hphase

theorem EndRule.tells {next : Machine} (hrule : machine.EndRule next)
    (htold : machine.Told stop seen) : next.spine.Tells stop seen := by
  obtain ⟨⟨h, hfresh⟩, ⟨passed, own, rfl, htells, hcites⟩, hlast⟩ := htold
  have hleave : Stacked machine.leave.frames := h
  have hstay := htells.append own
  cases hrule with
  | outside => exact hstay
  | event hphase =>
    rw [hphase] at hcites
    exact tells_attach hleave htells (EventHeader.fresh_draft _ _) (hcites.event_draft _)
      (hlast _ hphase)
  | word | hidden => exact hstay
  | function hphase hwords =>
    rw [hphase] at hcites
    exact tells_attach hleave htells (Draft.fresh_ofTokens_self _ _ _)
      (hcites.function_draft hwords) (hlast _ hphase)
  | var hphase hwords hfunction =>
    rw [hphase] at hcites
    exact tells_attach hleave htells (Draft.fresh_ofTokens_self _ _ _)
      (hcites.var_draft hwords hfunction) (hlast _ hphase)
  | parameters hphase =>
    rw [hphase] at hcites
    exact tells_attach hleave htells (ParameterList.fresh_signed (hfresh _ hphase) _ _) hcites
      (hlast _ hphase)
  | body hphase =>
    rw [hphase] at hcites
    exact tells_attach hleave htells (hfresh _ hphase) hcites (hlast _ hphase)
  | declarators hphase =>
    rw [hphase] at hcites
    exact tells_report hleave htells (hfresh _ hphase) hcites (hlast _ hphase)

/-- At the end of the text a header is closed with its own last token. -/
theorem tells_endHeader (htold : machine.Told stop seen) :
    machine.endHeader.spine.Tells stop seen :=
  machine.end_rule.tells htold

theorem told_foldl_feed (htold : machine.Told stop seen) (tokens : List Token) :
    (tokens.foldl feed machine).Told stop (seen ++ tokens) := by
  induction tokens generalizing machine seen with
  | nil => simpa using htold
  | cons token tokens ih =>
    have hnext := feed_ends (fun _ h => told_step h token) htold
    simpa using ih hnext

/-- When all is closed, what the machine tells is told by the roots. -/
theorem tells_finish (htold : machine.Told stop seen) :
    Spine.Tells stop seen ⟨(machine.finish stop).roots.toList, []⟩ := by
  exact finish_invariant stop (P := fun spine => spine.Tells stop seen)
    (fun _ h => h.pop (Or.inr rfl) _) (stacked_endHeader htold.regular.1) (tells_endHeader htold)

end Machine

/-- The outline of a text tells of the tokens of the text. -/
theorem tells_extract (source : String) (options : Options) :
    Spine.Tells (Token.scan source).2.position (Token.ofText source)
      ⟨extract source options, []⟩ := by
  have hstart := Machine.told_start source options (Token.scan source).2.position
  exact Machine.tells_finish (Machine.told_foldl_feed hstart (Token.ofText source))

/-! ## The laws -/

/-- Every symbol of a source is a quotation of it: it starts with a token of the source, takes its
name from one that is not before that, and ends with one that is not before its name, or with the
source. No two symbols share a token that names them, and they are listed as these tokens stand. -/
theorem every_symbol_names_its_source (source : String) (options : Options) :
    (∀ entry ∈ (extract source options).levels, ∃ before name after,
      Token.ofText source = before ++ name :: after ∧
      (∃ first ∈ before ++ [name], entry.2.Quotes source first name) ∧
      ((∃ last ∈ name :: after, entry.2.range.stop = last.range.stop) ∨
        entry.2.range.stop = (Text.LineTable.of source).endPosition)) ∧
    ((extract source options).levels.map (·.2.selection)).Pairwise fun selection later =>
      selection.start < later.start ∧ selection.stop ≤ later.start := by
  obtain ⟨hselections, hall⟩ := tells_extract source options
  rw [Token.position_scan] at hall
  constructor
  · intro entry hmem
    obtain ⟨before, name, after, htokens, hcites, hstop⟩ :=
      Everywhere.of_mem_listAllFrom hall.roots hmem
    exact ⟨before, name, after, htokens, hcites.quotes htokens, hstop⟩
  · have hlisted : (Spine.marks ⟨extract source options, []⟩).map (·.selection) =
        (extract source options).levels.map (·.2.selection) := by
      simp [Spine.marks, marks, Symbol.mark]
    rw [hlisted] at hselections
    refine List.Pairwise.sublist hselections (List.pairwise_map.2 ?_)
    refine (Token.pairwise_ofText source).imp_of_mem ?_
    intro first second hfirst _ hle
    exact ⟨lt_of_lt_of_le (Token.standsIn_of_mem hfirst).start_lt_stop hle, hle⟩

end Outline

end CaplOutline
