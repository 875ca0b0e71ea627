-- Declarations in two sources. A head, or a list of variables, leads the machine to the same
-- symbols in every source that says the same between its tokens. The last variable is
-- reported by a semicolon, or by the token that shows that the semicolon is missing: that
-- token is then handled again, as if it stood behind the semicolon.
import CaplOutline.Proofs.Outline.Losses
import CaplOutline.Proofs.Outline.Variables
import CaplOutline.Proofs.Symbol.Revising

namespace CaplOutline.Outline

open Machine Text

variable {machine : Machine} {source source' : String} {options : Options} {level : Nat}

/-! ## The end of a declaration of variables -/

/-- The token behind a declaration ends its first words, if nothing follows its name. -/
theorem Names.endsAt {tokens rest : List Token} {token : Token} (h : Names tokens)
    {header : DeclarationHeader} (htoken : tokens = [] → header.endsAt token = true) :
    ∃ token' rest', tokens ++ token :: rest = token' :: rest' ∧ header.endsAt token' = true := by
  cases tokens with
  | nil => exact ⟨token, rest, rfl, htoken rfl⟩
  | cons first tokens =>
    refine ⟨first, tokens ++ token :: rest, rfl, ?_⟩
    have hkind := h.starts first rfl
    unfold DeclarationHeader.endsAt
    grind

/-- What shows that a semicolon is missing ends the first words of a declaration. -/
theorem DeclarationHeader.endsAt_of_resumes {header : DeclarationHeader} {token : Token}
    (hline : header.last.range.stop.line = header.last.line)
    (h : header.last.resumes token = true) : header.endsAt token = true := by
  unfold Token.resumes at h
  unfold endsAt
  rw [hline]
  cases hkind : token.kind <;>
    simp_all [TokenKind.opensBlock, TokenKind.opensDeclaration]

/-- And it ends a list of declarators in which no bracket is open. -/
theorem DeclaratorList.endsBefore_of_resumes {list : DeclaratorList} {token : Token}
    (htop : list.isTop = true) (hline : list.last.range.stop.line = list.last.line)
    (h : list.last.resumes token = true) : list.endsBefore token = true := by
  have hbraces : (list.braces == 0) = true := by
    unfold isTop at htop
    rw [Bool.and_eq_true] at htop
    exact htop.2
  unfold Token.resumes at h
  unfold endsBefore
  rw [hline, htop, hbraces]
  cases hkind : token.kind <;>
    simp_all [TokenKind.opensBlock, TokenKind.opensDeclaration]

/-- The machine `state` is at the last variable of a declaration that began at `machine`. The last
token of the declaration so far is `last`, and if it ends at `stop` then these symbols are reported
in all. -/
def AtLastVariable (machine : Machine) (last : Token) (symbols : Position → List Symbol)
    (state : Machine) : Prop :=
  ∃ list, state.phase = .inHeader (.declarators list) ∧ list.isTop = true ∧ list.last = last ∧
    ∀ stop, (state.report list stop).settle = machine.adoptAll (symbols stop)

section

variable {last : Token} {symbols : Position → List Symbol} {state : Machine}

/-- A semicolon ends the declaration. -/
theorem AtLastVariable.handle_semicolon (h : AtLastVariable machine last symbols state)
    {semicolon : Token} (hkind : semicolon.kind = .semicolon) :
    state.handle semicolon = .consumed (machine.adoptAll (symbols semicolon.range.stop)) := by
  obtain ⟨list, hphase, -, -, hreport⟩ := h
  rw [← hreport]
  exact handle_eq_iff.2 (.declarators hphase (.semicolon hkind))

/-- Without a semicolon it has ended with its last token, and the token behind it is handled
again. -/
theorem AtLastVariable.handle_next (h : AtLastVariable machine last symbols state)
    (hline : last.range.stop.line = last.line) {next : Token}
    (hresumes : last.resumes next = true) :
    state.handle next = .retry (machine.adoptAll (symbols last.range.stop)) := by
  obtain ⟨list, hphase, htop, rfl, hreport⟩ := h
  rw [← hreport]
  exact handle_eq_iff.2
    (.declarators hphase (.ends (list.endsBefore_of_resumes htop hline hresumes)))

end

/-! ## Up to the last variable -/

/-- The symbols that a list reports if it ends at `stop`. -/
def DeclaratorList.symbolsAt (list : DeclaratorList) (options : Options) (stop : Position) :
    List Symbol :=
  if list.emit then
    list.current.toList.map fun draft =>
      { draft with detail := list.typeText }.finish options.includeDetails stop
  else []

theorem report_eq_adoptAll (machine : Machine) (list : DeclaratorList) (stop : Position) :
    machine.report list stop = machine.adoptAll (list.symbolsAt machine.options stop) := by
  unfold report DeclaratorList.symbolsAt
  cases list.current with
  | none => cases list.emit <;> rfl
  | some draft => cases list.emit <;> rfl

/-- The list is outside of all brackets, and nothing is in the variable that it is at. -/
structure DeclaratorList.Plain (list : DeclaratorList) (afterGroup : Bool) : Prop where
  top : list.isTop = true
  after_eq : list.afterGroup = afterGroup
  childless : ∀ draft ∈ list.current, draft.children = #[]

theorem DeclaratorList.Plain.revise_symbolsAt {list : DeclaratorList} {afterGroup : Bool}
    (h : list.Plain afterGroup) (f : Position → Position) (stop : Position) :
    revise id f (list.symbolsAt options stop) = list.symbolsAt options (f stop) := by
  have hchildless := h.childless
  unfold symbolsAt
  cases list.emit with
  | false => rfl
  | true =>
    cases hcurrent : list.current with
    | none => rfl
    | some draft =>
      obtain ⟨name, detail, kind, start, selection, children⟩ := draft
      obtain rfl : children = #[] := hchildless _ hcurrent
      rfl

/-- From this list on, the tokens lead to the last variable of the declaration. The symbols that are
reported in all hold no others, and each ends at one of the tokens or at the end of the
declaration. -/
def LeadsToLast (options : Options) (list : DeclaratorList) (tokens : List Token) : Prop :=
  ∃ symbols : Position → List Symbol,
    (∀ f : Position → Position,
      (∀ token ∈ list.last :: tokens, f token.range.stop = token.range.stop) →
        ∀ stop, revise id f (symbols stop) = symbols (f stop)) ∧
    ∀ machine : Machine, machine.settle = machine → machine.options = options →
      ∃ state, AtLastVariable machine (tokens.getLastD list.last) symbols state ∧
        Leads (machine.readHeader (.declarators list)) tokens state

/-- So do all tokens from an earlier list on, if the first of them lead to this list. -/
theorem LeadsToLast.append {list list' : DeclaratorList} {piece rest : List Token}
    (reported : List Symbol)
    (hfirst : ∀ machine : Machine, machine.options = options →
      Leads (machine.readHeader (.declarators list)) piece
        ((machine.adoptAll reported).readHeader (.declarators list')))
    (hlast : list'.last = piece.getLastD list.last)
    (hrevise : ∀ f : Position → Position, f list.last.range.stop = list.last.range.stop →
      revise id f reported = reported)
    (h : LeadsToLast options list' rest) : LeadsToLast options list (piece ++ rest) := by
  obtain ⟨symbols, hsymbols, hleads⟩ := h
  refine ⟨fun stop => reported ++ symbols stop, ?_, ?_⟩
  · intro f hf stop
    have hrest : ∀ token ∈ list'.last :: rest, f token.range.stop = token.range.stop := by
      intro token hmem
      apply hf
      rcases List.mem_cons.1 hmem with rfl | hmem
      · rw [hlast]
        exact List.cons_subset_cons _ (List.subset_append_left ..) List.getLastD_mem_cons
      · exact List.mem_cons_of_mem _ (List.mem_append_right _ hmem)
    rw [revise_append, hrevise f (hf _ List.mem_cons_self), hsymbols f hrest]
  · intro machine hsettle hoptions
    obtain ⟨state, ⟨last, hphase, htop, hend, hreport⟩, hrest⟩ :=
      hleads (machine.adoptAll reported) (settle_adoptAll hsettle _) (by simp [hoptions])
    refine ⟨state, ⟨last, hphase, htop, ?_, ?_⟩, (hfirst machine hoptions).trans hrest⟩
    · rw [hend, hlast]
      simp [List.getLastD_eq_getLast?, List.getLast?_append]
    · intro stop
      rw [hreport, adoptAll_append]

/-- Outside of all brackets a comma reports the variable that the list is at, and a word names the
next one. No other token does anything. -/
theorem DeclaratorList.Plain.exists_next {list : DeclaratorList} {afterGroup : Bool}
    (h : list.Plain afterGroup) {token : Token} (hvalue : token.kind.isValue = true)
    (options : Options) :
    ∃ (reported : List Symbol) (list' : DeclaratorList), list'.Plain false ∧ list'.last = token ∧
      (∀ f : Position → Position, f list.last.range.stop = list.last.range.stop →
        revise id f reported = reported) ∧
      ∀ machine : Machine, machine.options = options →
        Leads (machine.readHeader (.declarators list)) [token]
          ((machine.adoptAll reported).readHeader (.declarators list')) := by
  by_cases hcomma : token.kind = .comma
  · refine ⟨list.symbolsAt options list.last.range.stop,
      { list with current := none, afterGroup := false, last := token }, ?_, rfl, ?_, ?_⟩
    · refine ⟨h.top, rfl, ?_⟩
      rintro draft ⟨⟩
    · intro f hf
      rw [h.revise_symbolsAt, hf]
    · rintro machine rfl
      apply Leads.one
      rw [handle_reports machine hcomma h.top, report_eq_adoptAll, adoptAll_readHeader]
      rfl
  cases hcurrent : list.current.isNone && token.isWord with
  | true =>
    rw [Bool.and_eq_true, Option.isNone_iff_eq_none] at hcurrent
    refine ⟨[], { list with
      current := some (.ofTokens .var token (some token)), afterGroup := false, last := token },
      ⟨h.top, rfl, ?_⟩, rfl, fun _ _ => rfl, ?_⟩
    · rintro draft ⟨⟩
      rfl
    · intro machine _
      exact .one (handle_names machine hcurrent.2 hvalue h.top hcurrent.1)
  | false =>
    have hstays : StaysIn list [token] false :=
      staysIn_value (by rw [Bool.and_assoc, hcurrent, Bool.and_false]) hvalue
        fun hkind => absurd hkind hcomma
    exact ⟨[], list.past [token] false, ⟨h.top, rfl, h.childless⟩, rfl, fun _ _ => rfl,
      fun machine _ => hstays machine⟩

theorem leadsToLast_of_values {tokens : List Token} {afterGroup : Bool}
    (h : Values afterGroup tokens) (options : Options) (list : DeclaratorList)
    (hlist : list.Plain afterGroup) : LeadsToLast options list tokens := by
  induction h generalizing list with
  | done =>
    refine ⟨list.symbolsAt options, fun f _ => hlist.revise_symbolsAt f, ?_⟩
    rintro machine hsettle rfl
    refine ⟨_, ⟨list, rfl, hlist.top, rfl, ?_⟩, .nowhere _⟩
    intro stop
    rw [report_eq_adoptAll, adoptAll_readHeader]
    exact settle_adoptAll hsettle _
  | @plain afterGroup token rest hvalue _ ih =>
    obtain ⟨reported, list', hplain, hlast, hrevise, hfirst⟩ := hlist.exists_next hvalue options
    exact .append reported hfirst hlast hrevise (ih list' hplain)
  | @group afterGroup opening closing inner rest hpair hopen hinner _ ih =>
    have hinner := staysIn_enclosed hinner (list.add opening) (list.isTop_add_opening hpair)
    have hstays := staysIn_group hpair
      (fun h => by rw [hlist.after_eq, hopen h, Bool.and_false]) hinner
    rw [hlist.top, Bool.and_true] at hstays
    have hrest := ih (list.past (opening :: (inner ++ [closing])) (closing.kind == .closeParen))
      ⟨hlist.top, rfl, hlist.childless⟩
    rw [group_append]
    exact .append [] (fun machine _ => hstays machine) rfl (fun _ _ => rfl) hrest

/-- The two sources say the same between any two of these tokens. -/
def Agree (source source' : String) (tokens : List Token) : Prop :=
  ∀ first ∈ tokens, ∀ last ∈ tokens,
    slice source' first.span.start last.span.start = slice source first.span.start last.span.start ∧
      slice source' first.span.start last.span.stop = slice source first.span.start last.span.stop

theorem Agree.refl (source : String) (tokens : List Token) : Agree source source tokens :=
  fun _ _ _ _ => ⟨rfl, rfl⟩

/-- A declaration of variables leads to the last of them, whatever ends it. -/
theorem leads_variableList {tokens : List Token} (h : VariableList tokens) (options : Options)
    (source : String) :
    ∃ last ∈ tokens.getLast?, ∃ symbols : Position → List Symbol,
      (∀ f : Position → Position, (∀ token ∈ tokens, f token.range.stop = token.range.stop) →
        ∀ stop, revise id f (symbols stop) = symbols (f stop)) ∧
      ∀ machine : Machine, machine.Ready → machine.options = options →
        Agree source machine.source tokens →
        (∀ token ∈ tokens, token.range.stop.line = token.line) →
        ∃ state, AtLastVariable machine last symbols state ∧
          ∀ next after target, next.kind = .semicolon ∨ last.resumes next = true →
            Leads state (next :: after) target →
              Leads machine (tokens ++ next :: after) target := by
  obtain @⟨first, name, more, tokens, hwords, hfirst, hname, hnames⟩ := h
  obtain ⟨symbols, hrevise, hleads⟩ := leadsToLast_of_values hnames.values options
    (listAt (detailOf (slice source first.span.start name.span.start)) first.range.start name)
    ⟨rfl, rfl, by rintro draft ⟨⟩; rfl⟩
  refine ⟨tokens.getLastD name, ?_, symbols, ?_, ?_⟩
  · simp [List.getLast?_cons, List.getLast?_append, List.getLastD_eq_getLast?]
  · intro f hf
    exact hrevise f fun token hmem =>
      hf token (List.mem_cons_of_mem _ (List.mem_append_right _ hmem))
  · intro machine hready hoptions hagree hlines
    obtain ⟨state, hat, hlist⟩ := hleads machine hready.settled hoptions
    refine ⟨state, hat, ?_⟩
    intro next after target hnext htarget
    have hends : tokens = [] → DeclarationHeader.endsAt
        ⟨first, 1 + more.length + 1, some name, name⟩ next = true := by
      rintro rfl
      rcases hnext with hkind | hresumes
      · exact DeclarationHeader.endsAt_semicolon _ hkind
      · exact DeclarationHeader.endsAt_of_resumes (hlines name (by simp)) hresumes
    obtain ⟨token, rest, hsplit, hends⟩ := hnames.endsAt hends
    have hnamed := leads_words hready.settled hwords hname fun token hmem =>
      Nat.le_of_eq (hlines token (by rcases List.mem_cons.1 hmem with h | h <;> simp [h])).symm
    have hretry := handle_endsAt hready hfirst (by omega) hends
    rw [(hagree first (by simp) name (by simp)).1] at hretry
    have hbehind := hlist.trans htarget
    rw [hsplit] at hbehind
    have htokens : first :: (more ++ name :: tokens) ++ next :: after =
        first :: (more ++ [name]) ++ token :: rest := by
      rw [← hsplit]
      simp
    rw [htokens]
    exact hnamed.trans (.retry hretry hbehind)

/-! ## Heads -/

/-- In every source that agrees on these tokens, they are the head of this symbol. -/
structure Introduces (source : String) (head : List Token) (draft : Draft) : Prop where
  fresh : draft.children = #[]
  leads : ∀ {machine : Machine}, machine.settle = machine → Agree source machine.source head →
    ∀ {opening : Token}, opening.kind = .openBrace →
      Leads machine (head ++ [opening]) (machine.push (some draft) draft.bodyScope)

/-- A signature leads to its body, or to its semicolon. -/
theorem leads_of_signature {head : List Token} (h : Signature head)
    (hlines : ∀ token ∈ head, token.range.stop.line = token.line) (source : String) :
    ∃ draft last, draft.children = #[] ∧
      ∀ machine : Machine, machine.settle = machine → Agree source machine.source head →
        Leads machine head (machine.readHeader (.awaitBody draft last)) := by
  obtain @⟨first, name, opening, closing, more, parameters, hwords, hname, hopening, hparameters,
    hclosing⟩ := h
  refine ⟨{ Draft.ofTokens .function first (some name) with
    detail := some (detailOf (slice source first.span.start closing.span.stop)) }, closing, rfl, ?_⟩
  intro machine hsettle hagree
  rw [← (hagree first (by simp) closing (by simp)).2]
  apply leads_signature hsettle hwords hname hopening hparameters hclosing
  intro token hmem
  exact Nat.le_of_eq (hlines token (by rcases List.mem_cons.1 hmem with h | h <;> simp [h])).symm

/-- The arguments of an event go from one token of its line to another one. -/
theorem EventHeader.mem_foldl_add {tokens line : List Token} (hline : line ⊆ tokens)
    (header : EventHeader) (hlast : header.last ∈ tokens)
    (harguments : ∀ start ∈ header.arguments, ∃ token ∈ tokens, token.span.start = start) :
    (line.foldl add header).last ∈ tokens ∧
      ∀ start ∈ (line.foldl add header).arguments, ∃ token ∈ tokens, token.span.start = start := by
  induction line generalizing header with
  | nil => exact ⟨hlast, harguments⟩
  | cons token line ih =>
    obtain ⟨hmem, hline⟩ := List.cons_subset.1 hline
    apply ih hline
    · unfold add
      split <;> exact hmem
    · unfold add
      split
      · exact harguments
      · intro start hstart
        cases hfirst : header.arguments with
        | none =>
          rw [hfirst] at hstart
          cases hstart
          exact ⟨token, hmem, rfl⟩
        | some first =>
          rw [hfirst] at hstart
          cases hstart
          exact harguments start hfirst

theorem EventHeader.draft_congr {opening : Token} {line : List Token}
    (h : Agree source source' (opening :: line)) :
    (line.foldl add (ofToken opening)).draft source' =
      (line.foldl add (ofToken opening)).draft source := by
  obtain ⟨hlast, harguments⟩ := mem_foldl_add (List.subset_cons_self opening line)
    (ofToken opening) List.mem_cons_self nofun
  generalize line.foldl add (ofToken opening) = header at hlast harguments
  unfold draft
  cases hstart : header.arguments with
  | none => rfl
  | some start =>
    obtain ⟨token, hmem, rfl⟩ := harguments start hstart
    dsimp only [Option.map_some]
    rw [(h token hmem header.last hlast).2]

theorem CodeHead.introduces {head : List Token} (h : CodeHead head)
    (hlines : ∀ token ∈ head, token.range.stop.line = token.line) (source : String) :
    ∃ draft, Introduces source head draft := by
  cases h with
  | function h =>
    obtain ⟨draft, last, hfresh, hleads⟩ := leads_of_signature h hlines source
    refine ⟨draft, hfresh, fun {machine} hsettle hagree opening hopening => ?_⟩
    exact (hleads machine hsettle hagree).trans (.one (handle_body machine draft last hopening))
  | @event opening line hfirst hline =>
    refine ⟨(line.foldl EventHeader.add (.ofToken opening)).draft source, rfl, ?_⟩
    intro machine hsettle hagree brace hbrace
    rw [← EventHeader.draft_congr hagree]
    exact leads_event hsettle hfirst hline hbrace

theorem ContainerHead.introduces {head : List Token} (h : ContainerHead head)
    (hlines : ∀ token ∈ head, token.range.stop.line = token.line) (source : String) :
    ∃ draft, draft.kind = .container ∧ Introduces source head draft := by
  obtain ⟨draft, hkind, hhead⟩ : ∃ draft, draft.kind = .container ∧
      ∀ source, Head source head draft := by
    cases h with
    | block hword => exact ⟨_, rfl, fun _ => .block hword⟩
    | aggregate hword hname =>
      rcases hword with hword | hword
      · exact ⟨_, rfl, fun _ => .aggregate (Or.inl ⟨hword, rfl⟩) hname⟩
      · exact ⟨_, rfl, fun _ => .aggregate (Or.inr ⟨hword, rfl⟩) hname⟩
  refine ⟨draft, hkind, (hhead source).children_eq, ?_⟩
  intro machine hsettle _ opening hopening
  exact leads_head hsettle (hhead machine.source)
    (fun token hmem => Nat.le_of_eq (hlines token hmem).symm) hopening

end CaplOutline.Outline
