-- Where the details of an outline come from. Every variable and every function shows what
-- the text says of it, however its declaration ends. A text that ends in the first words of
-- a declaration leaves its symbol without a detail, and nothing else does. What is shown is
-- on one line, and cut at most once.
import CaplOutline.Proofs.Outline.Everywhere
import CaplOutline.Proofs.Outline.Shown

namespace CaplOutline.Outline

open Text

/-! ## Symbols that are explained by the text -/

/-- What the detail of a symbol is taken from. -/
structure IsExplained (source : String) (options : Options) (symbol : Symbol) : Prop where
  detail : options.includeDetails = true → symbol.kind = .var ∨ symbol.kind = .function →
    (∃ detail, symbol.detail = some detail ∧ Shows source options symbol.mark detail) ∨
      (symbol.detail = none ∧ IsCutOff source options symbol)
  fits : ∀ detail ∈ symbol.detail, detail.utf8ByteSize ≤ maxDetail + ellipsis.utf8ByteSize

/-- An open symbol, or one that waits for its body, is no variable. If it is a function it has its
detail. -/
structure Draft.IsExplained (source : String) (options : Options) (draft : Draft) : Prop where
  ne_var : draft.kind ≠ .var
  detail : draft.kind = .function →
    ∃ detail, draft.detail = some detail ∧ Shows source options draft.mark detail
  fits : ∀ detail ∈ draft.detail, detail.utf8ByteSize ≤ maxDetail + ellipsis.utf8ByteSize

/-- The parameters of a function of which the first words are `before`: the parenthesis `opening`
and the tokens `inner`. -/
structure ParameterList.Follows (source : String) (options : Options) (before : List Token)
    (header : DeclarationHeader) (name opening : Token) (inner : List Token)
    (list : ParameterList) : Prop where
  words : header.ReadBy source options before
  name_eq : header.name = some name
  opens : opening.kind = .openParen
  first_eq : list.first = header.first
  kind_eq : list.draft.kind = .function
  start_eq : list.draft.start = header.first.range.start
  selection_eq : list.draft.selection = name.range
  last_eq : list.last = inner.getLastD opening
  inner_eq : ∀ rest, parametersOf 1 (inner ++ rest) = inner ++ parametersOf list.parens rest

/-- The declarators of a declaration of which the first words are `before`: the tokens `inner`. -/
structure DeclaratorList.Follows (source : String) (options : Options) (before : List Token)
    (header : DeclarationHeader) (name : Token) (inner : List Token) (list : DeclaratorList) :
    Prop where
  words : header.ReadBy source options before
  hasDeclarator : header.hasDeclarator = true
  name_eq : header.name = some name
  typeText_eq : list.typeText =
    some (detailOf (slice source header.first.span.start name.span.start))
  reads : ReadsDeclarators source options before inner
  declares : ∀ draft ∈ list.current, draft.kind = .var ∧
    header.Declares source options before inner name draft.start draft.selection

/-- The header is about the tokens that have been seen. -/
def Header.IsExplained (source : String) (options : Options) (seen : List Token) : Header → Prop
  | .event _ => True
  | .declaration header => header.ReadBy source options seen
  | .parameters list => ∃ before header name opening inner,
      seen = before ++ opening :: inner ∧
        list.Follows source options before header name opening inner
  | .awaitBody draft _ => draft.IsExplained source options
  | .declarators list => ∃ before header name inner,
      seen = before ++ inner ∧ list.Follows source options before header name inner

variable {source : String} {options : Options} {seen after : List Token}

theorem Draft.IsExplained.finish {draft : Draft} (h : draft.IsExplained source options)
    (stop : Position) :
    Outline.IsExplained source options (draft.finish options.includeDetails stop) := by
  refine ⟨?_, ?_⟩
  · intro hdetails hkind
    left
    rcases hkind with hvar | hfunction
    · exact absurd hvar h.ne_var
    · obtain ⟨detail, hdetail, hshows⟩ := h.detail hfunction
      refine ⟨detail, ?_, hshows⟩
      unfold Draft.finish
      rw [hdetails, if_pos rfl, hdetail]
  · intro detail hmem
    unfold Draft.finish at hmem
    dsimp only at hmem
    split at hmem
    · exact h.fits detail hmem
    · cases hmem

theorem Draft.IsExplained.adopt (draft : Draft) (child : Symbol)
    (h : draft.IsExplained source options) : (draft.adopt child).IsExplained source options :=
  ⟨h.ne_var, h.detail, h.fits⟩

theorem Draft.isExplained_of_other {draft : Draft}
    (hkind : draft.kind = .event ∨ draft.kind = .container)
    (hfits : ∀ detail ∈ draft.detail, detail.utf8ByteSize ≤ maxDetail + ellipsis.utf8ByteSize) :
    draft.IsExplained source options := by
  refine ⟨?_, ?_, hfits⟩
  · rcases hkind with hkind | hkind <;> simp [hkind]
  · rcases hkind with hkind | hkind <;> simp [hkind]

theorem EventHeader.isExplained_draft (header : EventHeader) :
    (header.draft source).IsExplained source options := by
  refine Draft.isExplained_of_other (Or.inl rfl) ?_
  intro detail hmem
  unfold EventHeader.draft at hmem
  cases harguments : header.arguments with
  | none => simp [harguments] at hmem
  | some start =>
    simp only [harguments, Option.map_some, Option.mem_def, Option.filter_eq_some_iff,
      Option.some.injEq] at hmem
    rw [← hmem.1]
    exact size_detailOf_le _

theorem DeclarationHeader.isExplained_aggregate (header : DeclarationHeader) :
    Draft.IsExplained source options
      { Draft.ofTokens .container header.first header.name with detail := header.aggregate? } := by
  refine Draft.isExplained_of_other (Or.inr rfl) ?_
  intro detail hmem
  change header.aggregate? = some detail at hmem
  unfold aggregate? at hmem
  split at hmem <;> cases hmem <;> decide

theorem ReadsDeclarators.concat {before inner : List Token} {token : Token}
    (h : ReadsDeclarators source options before inner) {list : DeclaratorList}
    (hphase : (Machine.run source options (before ++ inner ++ [token])).phase =
      .inHeader (.declarators list)) :
    ReadsDeclarators source options before (inner ++ [token]) := by
  intro front hfront hne
  rcases List.prefix_concat_iff.1 hfront with rfl | hfront
  · exact ⟨list, by rwa [← List.append_assoc]⟩
  · exact h front hfront hne

theorem DeclarationHeader.Declares.append {before inner : List Token} {header : DeclarationHeader}
    {name : Token} {start : Position} {selection : Range}
    (h : header.Declares source options before inner name start selection) (more : List Token) :
    header.Declares source options before (inner ++ more) name start selection := by
  cases h with
  | first => exact .first
  | next hsplit hreads => exact .next (by rw [hsplit, List.append_assoc, List.cons_append]) hreads

theorem DeclaratorList.Follows.isExplained_finish {before inner : List Token}
    {header : DeclarationHeader} {name : Token} {list : DeclaratorList} {draft : Draft}
    (h : list.Follows source options before header name inner)
    (htokens : Token.ofText source = before ++ inner ++ after)
    (hcurrent : list.current = some draft)
    (stop : Position) :
    Outline.IsExplained source options
      (Draft.finish { draft with detail := list.typeText } options.includeDetails stop) := by
  obtain ⟨hkind, hdeclares⟩ := h.declares draft hcurrent
  rw [List.append_assoc] at htokens
  have hshows : Shows source options draft.mark
      (detailOf (slice source header.first.span.start name.span.start)) :=
    .type hkind htokens h.words h.hasDeclarator h.name_eq (hdeclares.append after)
  refine ⟨?_, ?_⟩
  · intro hdetails _
    refine Or.inl ⟨_, ?_, hshows⟩
    unfold Draft.finish
    rw [hdetails, if_pos rfl, h.typeText_eq]
  · intro detail hmem
    unfold Draft.finish at hmem
    dsimp only at hmem
    rw [h.typeText_eq] at hmem
    split at hmem
    · cases hmem
      exact size_detailOf_le _
    · cases hmem

theorem ParameterList.Follows.isExplained_signed {before inner rest : List Token}
    {header : DeclarationHeader} {name opening : Token} {list : ParameterList}
    (h : list.Follows source options before header name opening inner)
    (htokens : Token.ofText source = before ++ opening :: rest) {stop : Nat}
    (hstop : stop = ((parametersOf 1 rest).getLastD opening).span.stop) :
    (list.signed source stop).IsExplained source options := by
  have hshows : Shows source options (list.signed source stop).mark
      (detailOf (slice source header.first.span.start stop)) := by
    rw [hstop]
    exact .signature h.kind_eq htokens h.words h.name_eq h.opens h.start_eq h.selection_eq
  refine ⟨?_, ?_, ?_⟩
  · change list.draft.kind ≠ .var
    rw [h.kind_eq]
    exact nofun
  · intro _
    refine ⟨_, ?_, hshows⟩
    unfold ParameterList.signed
    rw [h.first_eq]
  · intro detail hmem
    cases hmem
    exact size_detailOf_le _

/-! ## The machine -/

namespace Machine

/-- All symbols that the machine has made are explained by the text. -/
structure IsGrounded (source : String) (options : Options) (machine : Machine) : Prop where
  stacked : Stacked machine.frames
  source_eq : machine.source = source
  options_eq : machine.options = options
  spine : machine.spine.Every (Outline.IsExplained source options)
    (Draft.IsExplained source options)

/-- And so is the header that it reads, behind the tokens that it has seen. -/
structure IsExplained (source : String) (options : Options) (seen : List Token)
    (machine : Machine) : Prop extends machine.IsGrounded source options where
  fresh : ∀ header, machine.phase = .inHeader header → header.Fresh
  header : ∀ header, machine.phase = .inHeader header → header.IsExplained source options seen

/-- A step explains the tokens seen, and its own token if it uses it up. -/
def Explains (source : String) (options : Options) (seen : List Token) (token : Token)
    (step : Step) : Prop :=
  step.Ends (IsExplained source options seen) fun machine =>
    (run source options (seen ++ [token])).phase = machine.phase →
      machine.IsExplained source options (seen ++ [token])

variable {machine : Machine} {token : Token}

namespace IsGrounded

variable (h : machine.IsGrounded source options)

include h

theorem settle (seen : List Token) : machine.settle.IsExplained source options seen :=
  { h with
    fresh := fun header hphase => absurd hphase (settle_phase_ne machine header)
    header := fun header hphase => absurd hphase (settle_phase_ne machine header) }

theorem readHeader {header : Header} (hfresh : header.Fresh)
    (hheader : header.IsExplained source options seen) :
    (machine.readHeader header).IsExplained source options seen :=
  { h with
    fresh := fun _ hphase => by cases hphase; exact hfresh
    header := fun _ hphase => by cases hphase; exact hheader }

theorem attach {draft : Draft} (hchildren : draft.children = #[]) {stop : Position}
    (hsymbol : Outline.IsExplained source options (draft.finish options.includeDetails stop)) :
    (machine.attach draft stop).IsGrounded source options := by
  refine ⟨stacked_attach h.stacked _ _, (source_attach ..).trans h.source_eq,
    (options_attach ..).trans h.options_eq, ?_⟩
  rw [spine_attach h.stacked, h.options_eq]
  refine h.spine.attach Draft.IsExplained.adopt (.intro hsymbol ?_)
  simp [Draft.finish, hchildren]

theorem close {draft : Draft} (hchildren : draft.children = #[])
    (hdraft : draft.IsExplained source options) (seen : List Token) (stop : Position) :
    (machine.close draft stop).IsExplained source options seen :=
  (h.attach hchildren (hdraft.finish stop)).settle seen

theorem push {draft : Draft} (hchildren : draft.children = #[])
    (hdraft : draft.IsExplained source options) (seen : List Token) (scope : Scope) :
    (machine.push (some draft) scope).IsExplained source options seen where
  stacked := stacked_push h.stacked _ _
  source_eq := h.source_eq
  options_eq := h.options_eq
  spine := by
    rw [spine_push_some h.stacked]
    exact h.spine.push hchildren hdraft
  fresh _ hphase := by cases hphase
  header _ hphase := by cases hphase

theorem push_none (seen : List Token) (scope : Scope) :
    (machine.push none scope).IsExplained source options seen where
  stacked := stacked_push h.stacked _ _
  source_eq := h.source_eq
  options_eq := h.options_eq
  spine := by
    rw [spine_push_none h.stacked]
    exact h.spine
  fresh _ hphase := by cases hphase
  header _ hphase := by cases hphase

theorem pop (seen : List Token) (stop : Position) :
    (machine.pop stop).IsExplained source options seen := by
  have hpop : (machine.pop stop).IsGrounded source options := by
    refine ⟨stacked_pop h.stacked stop, ?_, (options_pop stop machine).trans h.options_eq, ?_⟩
    · exact (source_pop stop machine).trans h.source_eq
    · rcases spine_pop h.stacked stop with hsame | hpop
      · rw [hsame]
        exact h.spine
      · rw [hpop, h.options_eq]
        exact h.spine.pop Draft.IsExplained.adopt fun _ hdraft => hdraft.finish stop
  rw [← settle_pop]
  exact hpop.settle seen

/-- A variable is reported with the type of its declaration. -/
theorem report {before inner : List Token} {header : DeclarationHeader} {name : Token}
    {list : DeclaratorList} (hfollows : list.Follows source options before header name inner)
    (hfresh : (Header.declarators list).Fresh)
    (htokens : Token.ofText source = before ++ inner ++ after) (stop : Position) :
    (machine.report list stop).IsGrounded source options := by
  unfold Machine.report
  split
  · rename_i draft hcurrent
    split
    · have hfinish := hfollows.isExplained_finish htokens hcurrent stop
      refine h.attach ?_ hfinish
      exact (hfresh draft hcurrent).1
    · exact h
  · exact h

end IsGrounded

/-! ## One step -/

section Step

variable {step : Step} (h : machine.IsGrounded source options)

include h

theorem ScanRule.explains {next : Machine} (hrule : machine.ScanRule token next)
    (hphase : (run source options (seen ++ [token])).phase = next.phase) :
    next.IsExplained source options (seen ++ [token]) := by
  cases hrule with
  | event => exact h.readHeader trivial trivial
  | block =>
    exact h.readHeader (Draft.fresh_ofTokens _ _ _ (by simp))
      (Draft.isExplained_of_other (Or.inr rfl) nofun)
  | declaration hopens =>
    exact h.readHeader trivial (DeclarationHeader.readBy_first hphase hopens)
  | opens => exact h.push_none _ _
  | closes => exact h.pop _ _
  | passes => exact h.settle _

theorem EventRule.explains {header : EventHeader} (hrule : machine.EventRule header token step) :
    Explains source options seen token step := by
  have hdraft : (header.draft machine.source).IsExplained source options := by
    rw [h.source_eq]
    exact header.isExplained_draft
  cases hrule with
  | body => exact fun _ => h.push rfl hdraft _ _
  | semicolon => exact fun _ => h.close rfl hdraft _ _
  | ends => exact h.close rfl hdraft _ _
  | more => exact fun _ => h.readHeader trivial trivial

theorem DeclarationRule.explains {header : DeclarationHeader}
    (hrule : machine.DeclarationRule header token step)
    (hread : header.ReadBy source options seen) : Explains source options seen token step := by
  cases hrule with
  | var hdeclarator hends =>
    obtain ⟨name, hname⟩ := hread.exists_name (DeclarationHeader.two_le_words hdeclarator)
    refine h.readHeader ?_ ⟨seen, header, name, [], (List.append_nil seen).symm, ?_⟩
    · rintro draft hdraft
      cases hdraft
      exact Draft.fresh_ofTokens _ _ _ (by simp)
    · refine ⟨hread, hdeclarator, hname, ?_, ?_, ?_⟩
      · dsimp only
        rw [hname, h.source_eq]
        rfl
      · intro front hfront hne
        exact absurd (List.prefix_nil.1 hfront) hne
      · rintro draft hdraft
        cases hdraft
        rw [hname]
        exact ⟨rfl, .first⟩
  | word hends hblock hword =>
    intro hphase
    have haddWord : header.read token = header.addWord token := if_pos hword
    rw [← haddWord] at hphase ⊢
    exact h.readHeader trivial (hread.read hphase (Or.inl hword))
  | connector hconnector =>
    intro hphase
    obtain ⟨-, -, hword⟩ := not_ends_of_isConnector header hconnector
    have hlast : header.read token = { header with last := token } :=
      if_neg (Bool.eq_false_iff.1 hword)
    rw [← hlast] at hphase ⊢
    exact h.readHeader trivial (hread.read hphase (Or.inr hconnector))
  | function hkind hwords =>
    obtain ⟨name, hname⟩ := hread.exists_name hwords
    intro _
    refine h.readHeader (Draft.fresh_ofTokens _ _ _ (by simp))
      ⟨seen, header, name, token, [], rfl, hread, hname, hkind, rfl, rfl, rfl, ?_, rfl,
        fun _ => rfl⟩
    rw [hname]
    rfl
  | aggregate => exact fun _ => h.push rfl header.isExplained_aggregate _ _
  | nothing => exact h.settle _

theorem ParametersRule.explains {before inner : List Token} {header : DeclarationHeader}
    {name opening : Token} {list : ParameterList} (hrule : machine.ParametersRule list token step)
    (hfollows : list.Follows source options before header name opening inner)
    (hfresh : (Header.parameters list).Fresh)
    (htokens : Token.ofText source = before ++ opening :: inner ++ token :: after) :
    Explains source options (before ++ opening :: inner) token step := by
  have hmore : ∀ parens, (∀ rest, parametersOf list.parens (token :: rest) =
        token :: parametersOf parens rest) →
      (machine.readHeader (.parameters { list with parens, last := token })).IsExplained source
        options (before ++ opening :: inner ++ [token]) := by
    intro parens hparens
    refine h.readHeader hfresh ⟨before, header, name, opening, inner ++ [token], by simp, ?_⟩
    refine { hfollows with last_eq := by simp, inner_eq := ?_ }
    intro rest
    rw [List.append_assoc, hfollows.inner_eq, List.singleton_append, hparens]
    simp
  have hsigned : ∀ (stop : Nat) (last : Token) (seen : List Token),
      stop = ((parametersOf 1 (inner ++ token :: after)).getLastD opening).span.stop →
      (machine.readHeader
        (.awaitBody (list.signed machine.source stop) last)).IsExplained source options seen := by
    intro stop last seen hstop
    refine h.readHeader (Draft.Fresh.withDetail hfresh _ (by simp)) ?_
    rw [h.source_eq]
    exact hfollows.isExplained_signed (by simpa using htokens) hstop
  cases hrule with
  | opens hkind => exact fun _ => hmore _ fun rest => by rw [parametersOf, hkind]
  | ends hkind hparens =>
    intro _
    refine hsigned _ _ _ ?_
    rw [hfollows.inner_eq, parametersOf, hkind]
    dsimp only
    rw [if_pos hparens]
    simp
  | closes hkind hparens =>
    refine fun _ => hmore _ fun rest => ?_
    rw [parametersOf, hkind]
    dsimp only
    rw [if_neg (Nat.not_le.2 hparens)]
  | cut hkind =>
    have hnil : parametersOf list.parens (token :: after) = [] := by
      simp only [List.mem_cons, List.not_mem_nil, or_false] at hkind
      rcases hkind with hkind | hkind | hkind | hkind <;> rw [parametersOf, hkind]
    refine hsigned _ _ _ ?_
    rw [hfollows.inner_eq, hnil, List.append_nil, hfollows.last_eq]
  | takes hopen hclose hcut =>
    refine fun _ => hmore _ fun rest => ?_
    rw [parametersOf]
    split <;> first | rfl | simp_all

theorem BodyRule.explains {draft : Draft} {last : Token}
    (hrule : machine.BodyRule draft last token step) (hfresh : (Header.awaitBody draft last).Fresh)
    (hdraft : draft.IsExplained source options) : Explains source options seen token step := by
  cases hrule with
  | body => exact fun _ => h.push hfresh.1 hdraft _ _
  | semicolon => exact fun _ => h.close hfresh.1 hdraft _ _
  | ends => exact h.close hfresh.1 hdraft _ _

theorem DeclaratorsRule.explains {before inner : List Token} {header : DeclarationHeader}
    {name : Token} {list : DeclaratorList} (hrule : machine.DeclaratorsRule list token step)
    (hfollows : list.Follows source options before header name inner)
    (hfresh : (Header.declarators list).Fresh)
    (htokens : Token.ofText source = before ++ inner ++ token :: after) :
    Explains source options (before ++ inner) token step := by
  have hmore : ∀ list' : DeclaratorList, list'.typeText = list.typeText →
      (∀ draft ∈ list'.current, draft ∈ list.current ∨
        draft = .ofTokens .var token (some token)) →
      (run source options (before ++ inner ++ [token])).phase = .inHeader (.declarators list') →
      (Header.declarators list').IsExplained source options (before ++ inner ++ [token]) := by
    intro list' htype hcurrent hphase
    have hreads := hfollows.reads.concat hphase
    refine ⟨before, header, name, inner ++ [token], by simp, ?_⟩
    refine { hfollows with
      typeText_eq := htype.trans hfollows.typeText_eq
      reads := hreads
      declares := ?_ }
    intro draft hdraft
    rcases hcurrent draft hdraft with hold | rfl
    · obtain ⟨hkind, hdeclares⟩ := hfollows.declares draft hold
      exact ⟨hkind, hdeclares.append [token]⟩
    · exact ⟨rfl, .next rfl hreads⟩
  have hreport := h.report hfollows hfresh htokens
  cases hrule with
  | semicolon => exact fun _ => (hreport _).settle _
  | ends => exact (hreport _).settle _
  | comma =>
    intro hphase
    exact (hreport _).readHeader nofun (hmore _ rfl nofun hphase)
  | name =>
    intro hphase
    refine h.readHeader ?_ (hmore _ rfl ?_ hphase)
    · rintro draft hdraft
      cases hdraft
      exact Draft.fresh_ofTokens _ _ _ (by simp)
    · rintro draft hdraft
      cases hdraft
      exact Or.inr rfl
  | takes =>
    intro hphase
    exact h.readHeader hfresh (hmore _ rfl (fun _ => Or.inl) hphase)

end Step

theorem Rule.explains {step : Step} (hrule : machine.Rule token step)
    (h : machine.IsExplained source options seen)
    (htokens : Token.ofText source = seen ++ token :: after) :
    Explains source options seen token step := by
  have hgrounded := h.toIsGrounded
  cases hrule with
  | scan _ hrule => exact hrule.explains hgrounded
  | event _ hrule => exact hrule.explains hgrounded
  | declaration hphase hrule => exact hrule.explains hgrounded (h.header _ hphase)
  | parameters hphase hrule =>
    obtain ⟨before, header, name, opening, inner, rfl, hfollows⟩ := h.header _ hphase
    exact hrule.explains hgrounded hfollows (h.fresh _ hphase) htokens
  | body hphase hrule => exact hrule.explains hgrounded (h.fresh _ hphase) (h.header _ hphase)
  | declarators hphase hrule =>
    obtain ⟨before, header, name, inner, rfl, hfollows⟩ := h.header _ hphase
    exact hrule.explains hgrounded hfollows (h.fresh _ hphase) htokens

/-! ## The whole text -/

theorem isExplained_start (source : String) (options : Options) :
    (start source options).IsExplained source options [] where
  stacked := trivial
  source_eq := rfl
  options_eq := rfl
  spine := ⟨nofun, nofun⟩
  fresh _ hphase := by cases hphase
  header _ hphase := by cases hphase

/-- Behind each token, what the machine has made so far is explained. -/
theorem isExplained_run (htokens : Token.ofText source = seen ++ after) :
    (run source options seen).IsExplained source options seen := by
  refine run_induction (P := IsExplained source options) (isExplained_start source options) ?_
    htokens
  intro seen token after htokens h
  -- The header behind the token is described by the run up to there, so each handling of
  -- the token has to know where the run goes.
  refine feed_ends (P := fun machine => machine.IsExplained source options seen ∧
      machine.feed token = run source options (seen ++ [token]))
    (Q := IsExplained source options (seen ++ [token])) ?_
    ⟨h, (run_concat source options seen token).symm⟩
  rintro machine ⟨hmachine, hrun⟩
  have hstep : Explains source options seen token (machine.step token) :=
    (machine.step_rule token).explains { hmachine with } htokens
  cases hs : machine.step token with
  | consumed machine' =>
    rw [hs] at hstep
    rw [feed_of_consumed hs] at hrun
    exact hstep (by rw [hrun])
  | retry machine' =>
    rw [hs] at hstep
    rw [feed_of_retry hs] at hrun
    exact ⟨hstep, hrun⟩

/-- The symbol of a declaration that the end of the text cuts off has no detail. -/
theorem isExplained_cut {header : DeclarationHeader} (hwords : 2 ≤ header.words)
    (hread : header.ReadBy source options (Token.ofText source)) {kind : SymbolKind}
    (hkind : kind = if header.isFunction then .function else .var) :
    Outline.IsExplained source options
      ((Draft.ofTokens kind header.first header.name).finish options.includeDetails
        header.last.range.stop) := by
  obtain ⟨name, hname⟩ := hread.exists_name hwords
  refine ⟨fun _ _ => Or.inr ⟨?_, ⟨header, name, hread, hname, hkind, rfl, ?_⟩⟩, ?_⟩
  · simp [Draft.finish, Draft.ofTokens]
  · rw [hname]
    rfl
  · simp [Draft.finish, Draft.ofTokens]

theorem EndRule.isGrounded {next : Machine} (hrule : machine.EndRule next)
    (h : machine.IsExplained source options (Token.ofText source)) :
    next.IsGrounded source options := by
  have hgrounded : machine.leave.IsGrounded source options := { h.toIsGrounded with }
  cases hrule with
  | outside | word | hidden => exact hgrounded
  | @event header hphase =>
    rw [h.source_eq]
    exact hgrounded.attach rfl (header.isExplained_draft.finish _)
  | function hphase hwords hfunction =>
    exact hgrounded.attach rfl
      (isExplained_cut hwords (h.header _ hphase) (by rw [if_pos hfunction]))
  | var hphase hwords hfunction =>
    exact hgrounded.attach rfl
      (isExplained_cut hwords (h.header _ hphase) (by rw [hfunction]; rfl))
  | parameters hphase =>
    obtain ⟨before, header, name, opening, inner, htokens, hfollows⟩ := h.header _ hphase
    have hstop := hfollows.inner_eq []
    rw [List.append_nil, parametersOf, List.append_nil] at hstop
    rw [h.source_eq]
    refine hgrounded.attach ?_ (Draft.IsExplained.finish
      (hfollows.isExplained_signed htokens ?_) _)
    · exact (h.fresh _ hphase).1
    · rw [hstop, hfollows.last_eq]
  | body hphase => exact hgrounded.attach (h.fresh _ hphase).1 ((h.header _ hphase).finish _)
  | declarators hphase =>
    obtain ⟨before, header, name, inner, htokens, hfollows⟩ := h.header _ hphase
    exact hgrounded.report hfollows (h.fresh _ hphase)
      ((List.append_nil _).trans htokens.symm).symm _

end Machine

/-- All symbols of an outline are explained by its text. -/
theorem isExplained_extract (source : String) (options : Options) :
    ∀ entry ∈ (extract source options).levels, IsExplained source options entry.2 := by
  have hrun : (Machine.run source options (Token.ofText source)).IsExplained source options
      (Token.ofText source) := Machine.isExplained_run (List.append_nil _).symm
  have hend := (Machine.end_rule _).isGrounded hrun
  have hfinish := Machine.finish_invariant (Token.scan source).2.position
    (P := fun spine => spine.Every (IsExplained source options)
      (Draft.IsExplained source options))
    (fun spine hspine => hspine.pop Draft.IsExplained.adopt fun draft hdraft => ?_)
    hend.stacked hend.spine
  · intro entry hmem
    exact Everywhere.of_mem_listAllFrom hfinish.roots hmem
  · rw [hend.options_eq]
    exact hdraft.finish _

/-! ## The laws -/

/-- With details on, every variable and every function of an outline has one, and it is not empty:
the type of a variable as it stands before the first name of its declaration, and the signature of a
function up to the end of its parameters, or up to where these are cut off. Only the symbol of a
declaration that the text cuts off in its first words is without one. -/
theorem every_detail_is_shown_but_at_a_cut (source : String) (includeLocals : Bool) :
    ∀ entry ∈ (extract source ⟨includeLocals, true⟩).levels,
      entry.2.kind = .var ∨ entry.2.kind = .function →
      (∃ detail, entry.2.detail = some detail ∧ detail ≠ "" ∧
        Shows source ⟨includeLocals, true⟩ entry.2.mark detail) ∨
      (entry.2.detail = none ∧ IsCutOff source ⟨includeLocals, true⟩ entry.2) := by
  intro entry hmem hkind
  rcases (isExplained_extract source _ entry hmem).detail rfl hkind with hshown | hcut
  · obtain ⟨detail, hdetail, hshows⟩ := hshown
    exact Or.inl ⟨detail, hdetail, hshows.ne_empty, hshows⟩
  · exact Or.inr hcut

theorem the_details_of_a_cut_off_text :
    let text := "int x;\nlong y"
    let shown : Symbol := ⟨"x", some "int", .var, ⟨⟨0, 0⟩, ⟨0, 6⟩⟩, ⟨⟨0, 4⟩, ⟨0, 5⟩⟩, []⟩
    let cutOff : Symbol := ⟨"y", none, .var, ⟨⟨1, 0⟩, ⟨1, 6⟩⟩, ⟨⟨1, 5⟩, ⟨1, 6⟩⟩, []⟩
    (extract text ⟨false, true⟩).levels = [(1, shown), (1, cutOff)] ∧
      Shows text ⟨false, true⟩ shown.mark "int" ∧ IsCutOff text ⟨false, true⟩ cutOff := by
  intro text shown cutOff
  have hlevels : (extract text ⟨false, true⟩).levels = [(1, shown), (1, cutOff)] := by
    decide +kernel
  refine ⟨hlevels, ?_, ?_⟩
  · have hmem : (1, shown) ∈ (extract text ⟨false, true⟩).levels := by simp [hlevels]
    rcases every_detail_is_shown_but_at_a_cut text false _ hmem (Or.inl rfl) with
      ⟨detail, hdetail, -, hshows⟩ | ⟨hnone, -⟩
    · cases hdetail
      exact hshows
    · cases hnone
  · have hmem : (1, cutOff) ∈ (extract text ⟨false, true⟩).levels := by simp [hlevels]
    rcases every_detail_is_shown_but_at_a_cut text false _ hmem (Or.inl rfl) with
      ⟨detail, hdetail, -⟩ | ⟨-, hcut⟩
    · cases hdetail
    · exact hcut

/-- A variable at the end of the text has no detail if nothing follows its name. -/
theorem a_variable_that_is_cut_off_has_no_detail :
    ¬ ∀ (source : String) (includeLocals : Bool),
      ∀ entry ∈ (extract source ⟨includeLocals, true⟩).levels,
        entry.2.kind = .var ∨ entry.2.kind = .function →
        ∃ detail, entry.2.detail = some detail ∧ detail ≠ "" := by
  intro h
  have hmem : (1, ⟨"x", none, .var, ⟨⟨0, 0⟩, ⟨0, 5⟩⟩, ⟨⟨0, 4⟩, ⟨0, 5⟩⟩, []⟩) ∈
      (extract "int x" ⟨false, true⟩).levels := by
    decide +kernel
  obtain ⟨detail, hdetail, -⟩ := h "int x" false _ hmem (Or.inl rfl)
  cases hdetail

/-- A detail is the words of its source, the only ones that it has, on one line, or the longest
front of that line that ends between two characters and has at most 120 bytes, with three dots
behind it. So no detail of an outline has more than 123 bytes, and all sources with the same words
have one detail. -/
theorem details_are_one_line_cut_once (source : String) :
    (∃! words, AreWords source.toList words) ∧
    (∀ words line, AreWords source.toList words →
      line = " ".intercalate (words.map String.ofList) →
      (line.utf8ByteSize ≤ 120 → detailOf source = line) ∧
      (120 < line.utf8ByteSize → ∃ cut,
        IsGreatest {offset | isBoundary line offset = true ∧ offset ≤ 120} cut ∧
          detailOf source = slice line 0 cut ++ "...") ∧
      ∀ source', AreWords source'.toList words → detailOf source' = detailOf source) ∧
    (detailOf source).utf8ByteSize ≤ 123 ∧
    ∀ options, ∀ entry ∈ (extract source options).levels, ∀ detail ∈ entry.2.detail,
      detail.utf8ByteSize ≤ 123 := by
  refine ⟨⟨_, areWords_words _, fun _ h => h.eq_words⟩, ?_, size_detailOf_le source, ?_⟩
  · rintro words line hwords rfl
    obtain rfl := hwords.eq_words
    have hdetail := detailOf_eq_shorten source
    rw [lineOf] at hdetail
    refine ⟨fun hle => ?_, fun hlt => ?_, fun source' hwords' => ?_⟩
    · rw [hdetail, shorten_of_le (by rwa [byteLength_toList]), String.ofList_toList]
    · rw [hdetail]
      exact shorten_of_gt hlt
    · rw [hdetail, detailOf_eq_shorten, lineOf, hwords'.eq_words]
  · intro options entry hentry detail hdetail
    exact (isExplained_extract source options entry hentry).fits detail hdetail

end CaplOutline.Outline
