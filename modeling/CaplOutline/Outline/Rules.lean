-- The rules of a step. Each function of the machine that takes a step is described by a relation,
-- with one rule for each thing that it may do and the condition under which it does it, and the
-- function gives what its relation says and nothing else. What is proved of a step is proved rule
-- by rule, so that the functions are taken apart here and nowhere else.
import CaplOutline.Outline.Step

namespace CaplOutline.Outline.Machine

/-! ## The rules -/

/-- What a token does outside headers. -/
inductive ScanRule (machine : Machine) (token : Token) : Machine → Prop
  | event : token.kind = .keyword .on →
      ScanRule machine token (machine.readHeader (.event (.ofToken token)))
  | block : token.kind = .keyword .variableBlock ∨ token.kind = .keyword .includeBlock →
      ScanRule machine token
        (machine.readHeader (.awaitBody (.ofTokens .container token token) token))
  | declaration : token.kind.opensDeclaration = true →
      ScanRule machine token (machine.readHeader (.declaration (.ofToken token)))
  | opens : token.kind = .openBrace →
      ScanRule machine token
        (machine.push none (if machine.scope = .topLevel then .code else machine.scope))
  | closes : token.kind = .closeBrace → ScanRule machine token (machine.pop token.range.stop)
  | passes : (∀ word, token.kind ≠ .keyword word) → token.kind ≠ .openBrace →
      token.kind ≠ .closeBrace → ScanRule machine token machine.settle

/-- What a token does in the header of an event. -/
inductive EventRule (machine : Machine) (header : EventHeader) (token : Token) : Step → Prop
  | body : token.kind = .openBrace →
      EventRule machine header token
        (.consumed (machine.push (header.draft machine.source) .code))
  | semicolon : token.kind = .semicolon →
      EventRule machine header token
        (.consumed (machine.close (header.draft machine.source) token.range.stop))
  /-- The body is missing. -/
  | ends : token.kind ≠ .openBrace → token.kind ≠ .semicolon →
      token.kind = .closeBrace ∨ token.kind.opensBlock = true ∨ token.line ≠ header.first.line →
      EventRule machine header token
        (.retry (machine.close (header.draft machine.source) header.last.range.stop))
  | more : token.kind ≠ .openBrace → token.kind ≠ .semicolon → token.kind ≠ .closeBrace →
      token.kind.opensBlock = false → token.line = header.first.line →
      EventRule machine header token (.consumed (machine.readHeader (.event (header.add token))))

/-- What a token does behind the first words of a declaration. -/
inductive DeclarationRule (machine : Machine) (header : DeclarationHeader) (token : Token) :
    Step → Prop
  | var : header.hasDeclarator = true → header.endsAt token = true →
      DeclarationRule machine header token (.retry (machine.readDeclarators header))
  | word : (header.hasDeclarator && header.endsAt token) = false →
      token.kind.opensBlock = false → token.isWord = true →
      DeclarationRule machine header token
        (.consumed (machine.readHeader (.declaration (header.addWord token))))
  | connector : DeclarationHeader.isConnector token = true →
      DeclarationRule machine header token
        (.consumed (machine.readHeader (.declaration { header with last := token })))
  | function : token.kind = .openParen → 2 ≤ header.words →
      DeclarationRule machine header token
        (.consumed (machine.readHeader (.parameters
          ⟨.ofTokens .function header.first header.name, header.first, 1, token⟩)))
  | aggregate : token.kind = .openBrace → header.aggregate?.isSome = true →
      DeclarationRule machine header token
        (.consumed (machine.push
          (some { Draft.ofTokens .container header.first header.name with
            detail := header.aggregate? }) .block))
  /-- The words declare nothing. -/
  | nothing : (header.hasDeclarator && header.endsAt token) = false →
      token.kind.opensBlock = true ∨ (token.isWord = false ∧
        DeclarationHeader.isConnector token = false ∧
        (token.kind = .openParen → header.words < 2) ∧
        (token.kind = .openBrace → header.aggregate?.isSome = false)) →
      DeclarationRule machine header token (.retry machine.settle)

/-- What a token does between the parentheses of a function. -/
inductive ParametersRule (machine : Machine) (list : ParameterList) (token : Token) : Step → Prop
  | opens : token.kind = .openParen →
      ParametersRule machine list token (.consumed
        (machine.readHeader (.parameters { list with parens := list.parens + 1, last := token })))
  | ends : token.kind = .closeParen → list.parens ≤ 1 →
      ParametersRule machine list token (.consumed (machine.readHeader
        (.awaitBody (list.signed machine.source token.span.stop) token)))
  | closes : token.kind = .closeParen → 1 < list.parens →
      ParametersRule machine list token (.consumed
        (machine.readHeader (.parameters { list with parens := list.parens - 1, last := token })))
  /-- The closing parenthesis is missing. -/
  | cut : token.kind ∈ [.openBrace, .closeBrace, .semicolon, .keyword .on] →
      ParametersRule machine list token (.retry (machine.readHeader
        (.awaitBody (list.signed machine.source list.last.span.stop) list.last)))
  | takes : token.kind ≠ .openParen → token.kind ≠ .closeParen →
      token.kind ∉ [.openBrace, .closeBrace, .semicolon, .keyword .on] →
      ParametersRule machine list token
        (.consumed (machine.readHeader (.parameters { list with last := token })))

/-- What a token does behind a complete header. -/
inductive BodyRule (machine : Machine) (draft : Draft) (last token : Token) : Step → Prop
  | body : token.kind = .openBrace →
      BodyRule machine draft last token (.consumed (machine.push draft draft.bodyScope))
  | semicolon : token.kind = .semicolon →
      BodyRule machine draft last token (.consumed (machine.close draft token.range.stop))
  /-- The body is missing. -/
  | ends : token.kind ≠ .openBrace → token.kind ≠ .semicolon →
      BodyRule machine draft last token (.retry (machine.close draft last.range.stop))

/-- What a token does among the variables of a declaration. -/
inductive DeclaratorsRule (machine : Machine) (list : DeclaratorList) (token : Token) : Step → Prop
  | semicolon : token.kind = .semicolon →
      DeclaratorsRule machine list token (.consumed (machine.report list token.range.stop).settle)
  /-- The semicolon is missing. -/
  | ends : list.endsBefore token = true →
      DeclaratorsRule machine list token
        (.retry (machine.report list list.last.range.stop).settle)
  | comma : token.kind = .comma → list.isTop = true →
      DeclaratorsRule machine list token
        (.consumed ((machine.report list list.last.range.stop).readHeader
          (.declarators ({ list with current := none }.add token))))
  | name : list.endsBefore token = false → list.isTop = true → list.current = none →
      token.isWord = true →
      DeclaratorsRule machine list token (.consumed (machine.readHeader (.declarators
        ({ list with current := some (.ofTokens .var token (some token)) }.add token))))
  | takes : token.kind ≠ .semicolon → list.endsBefore token = false →
      (token.kind = .comma → list.isTop = false) →
      (list.isTop && list.current.isNone && token.isWord) = false →
      DeclaratorsRule machine list token
        (.consumed (machine.readHeader (.declarators (list.add token))))

/-- What a token does, wherever the machine is. -/
inductive Rule (machine : Machine) (token : Token) : Step → Prop
  | scan {next : Machine} : (∀ header, machine.phase ≠ .inHeader header) →
      machine.ScanRule token next → Rule machine token (.consumed next)
  | event {header : EventHeader} {step : Step} : machine.phase = .inHeader (.event header) →
      machine.EventRule header token step → Rule machine token step
  | declaration {header : DeclarationHeader} {step : Step} :
      machine.phase = .inHeader (.declaration header) →
      machine.DeclarationRule header token step → Rule machine token step
  | parameters {list : ParameterList} {step : Step} :
      machine.phase = .inHeader (.parameters list) →
      machine.ParametersRule list token step → Rule machine token step
  | body {draft : Draft} {last : Token} {step : Step} :
      machine.phase = .inHeader (.awaitBody draft last) →
      machine.BodyRule draft last token step → Rule machine token step
  | declarators {list : DeclaratorList} {step : Step} :
      machine.phase = .inHeader (.declarators list) →
      machine.DeclaratorsRule list token step → Rule machine token step

/-- What the end of the text does to the header that it cuts off. -/
inductive EndRule (machine : Machine) : Machine → Prop
  | outside : (∀ header, machine.phase ≠ .inHeader header) → EndRule machine machine.leave
  | event {header : EventHeader} : machine.phase = .inHeader (.event header) →
      EndRule machine
        (machine.leave.attach (header.draft machine.source) header.last.range.stop)
  /-- There is no name yet. -/
  | word {header : DeclarationHeader} : machine.phase = .inHeader (.declaration header) →
      header.words < 2 → EndRule machine machine.leave
  | function {header : DeclarationHeader} : machine.phase = .inHeader (.declaration header) →
      2 ≤ header.words → header.isFunction = true →
      EndRule machine
        (machine.leave.attach (.ofTokens .function header.first header.name) header.last.range.stop)
  | var {header : DeclarationHeader} : machine.phase = .inHeader (.declaration header) →
      2 ≤ header.words → header.isFunction = false → machine.reportsVariables = true →
      EndRule machine
        (machine.leave.attach (.ofTokens .var header.first header.name) header.last.range.stop)
  | hidden {header : DeclarationHeader} : machine.phase = .inHeader (.declaration header) →
      2 ≤ header.words → header.isFunction = false → machine.reportsVariables = false →
      EndRule machine machine.leave
  | parameters {list : ParameterList} : machine.phase = .inHeader (.parameters list) →
      EndRule machine
        (machine.leave.attach (list.signed machine.source list.last.span.stop) list.last.range.stop)
  | body {draft : Draft} {last : Token} : machine.phase = .inHeader (.awaitBody draft last) →
      EndRule machine (machine.leave.attach draft last.range.stop)
  | declarators {list : DeclaratorList} : machine.phase = .inHeader (.declarators list) →
      EndRule machine (machine.leave.report list list.last.range.stop)

/-! ## The functions follow the rules -/

variable {machine next : Machine} {token last : Token} {step : Step}

theorem scan_eq_iff : machine.scan token = next ↔ machine.ScanRule token next := by
  constructor
  · rintro rfl
    unfold scan
    split <;> rename_i hkind
    · exact .event hkind
    · exact .block (.inl hkind)
    · exact .block (.inr hkind)
    · rename_i word hon hvariables hincludes
      apply ScanRule.declaration
      rw [hkind]
      cases word <;> simp_all [TokenKind.opensDeclaration]
    · exact .opens hkind
    · exact .closes hkind
    · rename_i hword hopen
      exact .passes hword hopen hkind
  · intro h
    unfold scan
    cases h with
    | event hkind => rw [hkind]
    | block hkind => rcases hkind with hkind | hkind <;> rw [hkind]
    | declaration hopens =>
      unfold TokenKind.opensDeclaration at hopens
      split at hopens
      case h_5 => cases hopens
      all_goals
        rename_i hkind
        rw [hkind]
    | opens hkind => rw [hkind]
    | closes hkind => rw [hkind]
    | passes hword hopen hclose =>
      split
      · exact absurd ‹_› (hword _)
      · exact absurd ‹_› (hword _)
      · exact absurd ‹_› (hword _)
      · exact absurd ‹_› (hword _)
      · exact absurd ‹_› hopen
      · exact absurd ‹_› hclose
      · rfl

theorem stepEvent_eq_iff {header : EventHeader} :
    machine.stepEvent header token = step ↔ machine.EventRule header token step := by
  constructor
  · rintro rfl
    unfold stepEvent
    simp only [beq_iff_eq, Bool.or_eq_true, bne_iff_ne, or_assoc]
    split
    · exact .body ‹_›
    · split
      · exact .semicolon ‹_›
      · split
        · exact .ends ‹_› ‹_› ‹_›
        · rename_i hends
          simp only [not_or, Bool.not_eq_true, Decidable.not_not] at hends
          exact .more ‹_› ‹_› hends.1 hends.2.1 hends.2.2
  · intro h
    unfold stepEvent
    cases h with
    | body hkind => rw [hkind]; rfl
    | semicolon hkind => rw [hkind]; rfl
    | ends hopen hsemicolon hends =>
      rw [if_neg (by simpa using hopen), if_neg (by simpa using hsemicolon),
        if_pos (by simpa [or_assoc] using hends)]
    | more hopen hsemicolon hclose hblock hline =>
      rw [if_neg (by simpa using hopen), if_neg (by simpa using hsemicolon),
        if_neg (by simp [hclose, hblock, hline])]

/-- A token between the words of a type ends no declaration. -/
theorem not_ends_of_isConnector (header : DeclarationHeader)
    (h : DeclarationHeader.isConnector token = true) :
    header.endsAt token = false ∧ token.kind.opensBlock = false ∧ token.isWord = false := by
  unfold DeclarationHeader.isConnector at h
  unfold DeclarationHeader.endsAt Token.isWord
  cases hkind : token.kind <;>
    simp_all [TokenKind.opensBlock, TokenKind.opensDeclaration, TokenKind.isWord]

/-- Neither does a brace that opens. -/
theorem not_ends_of_openBrace (header : DeclarationHeader) (h : token.kind = .openBrace) :
    header.endsAt token = false := by
  simp [DeclarationHeader.endsAt, h, TokenKind.opensBlock, TokenKind.opensDeclaration]

theorem kind_ne_brace_of_isWord (h : token.isWord = true) :
    token.kind ≠ .openBrace ∧ token.kind ≠ .closeBrace := by
  constructor <;> intro hkind <;> simp [Token.isWord, TokenKind.isWord, hkind] at h

theorem kind_ne_brace_of_isConnector (h : DeclarationHeader.isConnector token = true) :
    token.kind ≠ .openBrace ∧ token.kind ≠ .closeBrace := by
  constructor <;> intro hkind <;> simp [DeclarationHeader.isConnector, hkind] at h

theorem stepDeclaration_eq_iff {header : DeclarationHeader} :
    machine.stepDeclaration header token = step ↔ machine.DeclarationRule header token step := by
  constructor
  · rintro rfl
    unfold stepDeclaration
    split
    · rename_i hends
      rw [Bool.and_eq_true] at hends
      exact .var hends.1 hends.2
    · rename_i hends
      rw [Bool.not_eq_true] at hends
      split
      · exact .nothing hends (.inl ‹_›)
      · rename_i hblock
        rw [Bool.not_eq_true] at hblock
        split
        · exact .word hends hblock ‹_›
        · split
          · exact .connector ‹_›
          · split
            · rename_i hparen
              simp only [Bool.and_eq_true, beq_iff_eq, decide_eq_true_eq] at hparen
              exact .function hparen.1 hparen.2
            · split
              · rename_i hbrace
                simp only [Bool.and_eq_true, beq_iff_eq] at hbrace
                exact .aggregate hbrace.1 hbrace.2
              · refine .nothing hends (.inr ⟨?_, ?_, ?_, ?_⟩) <;> simp_all
  · intro h
    unfold stepDeclaration
    cases h with
    | var hdeclarator hends => rw [hdeclarator, hends]; rfl
    | word hends hblock hword =>
      rw [hends, hblock, if_neg Bool.false_ne_true, if_neg Bool.false_ne_true, if_pos hword]
    | connector hconnector =>
      obtain ⟨hends, hblock, hword⟩ := not_ends_of_isConnector header hconnector
      rw [hends, hblock, hword, Bool.and_false, if_neg Bool.false_ne_true,
        if_neg Bool.false_ne_true, if_neg Bool.false_ne_true, if_pos hconnector]
    | function hkind hwords =>
      simp [DeclarationHeader.endsAt, DeclarationHeader.isConnector, Token.isWord, hkind, hwords,
        TokenKind.opensBlock, TokenKind.opensDeclaration, TokenKind.isWord]
    | aggregate hkind haggregate =>
      rw [not_ends_of_openBrace header hkind]
      simp [DeclarationHeader.isConnector, Token.isWord, hkind, haggregate,
        TokenKind.opensBlock, TokenKind.isWord]
    | nothing hends hnothing =>
      rw [hends, if_neg Bool.false_ne_true]
      rcases hnothing with hblock | ⟨hword, hconnector, hparen, hbrace⟩
      · rw [if_pos hblock]
      · have hblock : token.kind.opensBlock = false := by
          rw [Bool.eq_false_iff]
          intro hblock
          exact Bool.eq_false_iff.1 hword (TokenKind.isWord_of_opensBlock hblock)
        rw [hblock, hword, hconnector, if_neg Bool.false_ne_true, if_neg Bool.false_ne_true,
          if_neg Bool.false_ne_true, if_neg, if_neg]
        · rw [Bool.and_eq_true, beq_iff_eq]
          rintro ⟨hkind, hsome⟩
          rw [hbrace hkind] at hsome
          cases hsome
        · rw [Bool.and_eq_true, beq_iff_eq, decide_eq_true_eq]
          rintro ⟨hkind, hwords⟩
          exact absurd (hparen hkind) (Nat.not_lt.2 hwords)

theorem stepParameters_eq_iff {list : ParameterList} :
    machine.stepParameters list token = step ↔ machine.ParametersRule list token step := by
  constructor
  · rintro rfl
    unfold stepParameters
    split <;> rename_i hkind
    · exact .opens hkind
    · split
      · exact .ends hkind ‹_›
      · exact .closes hkind (Nat.not_le.1 ‹_›)
    iterate 4 exact .cut (by simp [hkind])
    · exact .takes ‹_› ‹_› (by simp_all)
  · intro h
    unfold stepParameters
    cases h with
    | opens hkind => rw [hkind]
    | ends hkind hparens =>
      rw [hkind]
      exact if_pos hparens
    | closes hkind hparens =>
      rw [hkind]
      exact if_neg (Nat.not_le.2 hparens)
    | cut hkind =>
      simp only [List.mem_cons, List.not_mem_nil, or_false] at hkind
      rcases hkind with hkind | hkind | hkind | hkind <;> rw [hkind]
    | takes hopen hclose hcut =>
      simp only [List.mem_cons, List.not_mem_nil, or_false, not_or] at hcut
      split <;> simp_all

theorem stepAwaitBody_eq_iff {draft : Draft} :
    machine.stepAwaitBody draft last token = step ↔ machine.BodyRule draft last token step := by
  constructor
  · rintro rfl
    unfold stepAwaitBody
    split
    · exact .body ‹_›
    · exact .semicolon ‹_›
    · exact .ends ‹_› ‹_›
  · intro h
    unfold stepAwaitBody
    cases h with
    | body hkind => rw [hkind]
    | semicolon hkind => rw [hkind]
    | ends hopen hsemicolon =>
      split
      · exact absurd ‹_› hopen
      · exact absurd ‹_› hsemicolon
      · rfl

theorem stepDeclarators_eq_iff {list : DeclaratorList} :
    machine.stepDeclarators list token = step ↔ machine.DeclaratorsRule list token step := by
  constructor
  · rintro rfl
    unfold stepDeclarators
    split
    · exact .semicolon (beq_iff_eq.1 ‹_›)
    · rename_i hsemicolon
      split
      · exact .ends ‹_›
      · rename_i hends
        rw [Bool.not_eq_true] at hends
        split
        · rename_i hcomma
          rw [Bool.and_eq_true, beq_iff_eq] at hcomma
          exact .comma hcomma.1 hcomma.2
        · rename_i hcomma
          split
          · rename_i hname
            simp only [Bool.and_eq_true, Option.isNone_iff_eq_none] at hname
            exact .name hends hname.1.1 hname.1.2 hname.2
          · refine .takes ?_ hends ?_ (Bool.not_eq_true _ ▸ ‹_›) <;> simp_all
  · intro h
    unfold stepDeclarators
    cases h with
    | semicolon hkind => rw [hkind]; rfl
    | ends hends =>
      rw [if_neg, if_pos hends]
      intro hkind
      simp [DeclaratorList.endsBefore, beq_iff_eq.1 hkind, TokenKind.opensBlock,
        TokenKind.opensDeclaration] at hends
    | comma hkind htop =>
      simp [DeclaratorList.endsBefore, hkind, htop, TokenKind.opensBlock,
        TokenKind.opensDeclaration]
    | name hends htop hcurrent hword =>
      have hkind : token.kind ≠ .semicolon ∧ token.kind ≠ .comma := by
        constructor <;> intro hkind <;> simp [Token.isWord, hkind, TokenKind.isWord] at hword
      simp [hends, htop, hcurrent, hword, hkind]
    | takes hsemicolon hends hcomma hname =>
      rw [if_neg (by simpa using hsemicolon), hends, if_neg Bool.false_ne_true,
        if_neg (by simpa using hcomma), hname, if_neg Bool.false_ne_true]

theorem handle_eq_iff : machine.handle token = step ↔ machine.Rule token step := by
  constructor
  · rintro rfl
    unfold handle
    split <;> rename_i hphase
    · exact .scan (by simp [hphase]) (scan_eq_iff.1 rfl)
    · exact .scan (by simp [hphase]) (scan_eq_iff.1 rfl)
    · exact .event hphase (stepEvent_eq_iff.1 rfl)
    · exact .declaration hphase (stepDeclaration_eq_iff.1 rfl)
    · exact .parameters hphase (stepParameters_eq_iff.1 rfl)
    · exact .body hphase (stepAwaitBody_eq_iff.1 rfl)
    · exact .declarators hphase (stepDeclarators_eq_iff.1 rfl)
  · intro h
    unfold handle
    cases h with
    | scan hphase hrule =>
      rw [← scan_eq_iff.2 hrule]
      cases hmachine : machine.phase with
      | inHeader header => exact absurd hmachine (hphase header)
      | _ => rfl
    | event hphase hrule =>
      rw [hphase]
      exact stepEvent_eq_iff.2 hrule
    | declaration hphase hrule =>
      rw [hphase]
      exact stepDeclaration_eq_iff.2 hrule
    | parameters hphase hrule =>
      rw [hphase]
      exact stepParameters_eq_iff.2 hrule
    | body hphase hrule =>
      rw [hphase]
      exact stepAwaitBody_eq_iff.2 hrule
    | declarators hphase hrule =>
      rw [hphase]
      exact stepDeclarators_eq_iff.2 hrule

theorem endHeader_eq_iff : machine.endHeader = next ↔ machine.EndRule next := by
  have hreports : machine.leave.reportsVariables = machine.reportsVariables := rfl
  constructor
  · rintro rfl
    unfold endHeader
    cases hphase : machine.phase with
    | topLevel => exact .outside (by simp [hphase])
    | inBody => exact .outside (by simp [hphase])
    | inHeader header =>
      dsimp only
      unfold finishHeader
      rw [hreports]
      cases header with
      | event header => exact .event hphase
      | declaration header =>
        dsimp only
        split
        · exact .word hphase ‹_›
        · rename_i hwords
          rw [Nat.not_lt] at hwords
          split
          · exact .function hphase hwords ‹_›
          · rename_i hfunction
            rw [Bool.not_eq_true] at hfunction
            split
            · exact .var hphase hwords hfunction ‹_›
            · exact .hidden hphase hwords hfunction (Bool.not_eq_true _ ▸ ‹_›)
      | parameters list => exact .parameters hphase
      | awaitBody draft last => exact .body hphase
      | declarators list => exact .declarators hphase
  · intro h
    unfold endHeader finishHeader
    rw [hreports]
    cases h with
    | outside hphase =>
      cases hmachine : machine.phase with
      | inHeader header => exact absurd hmachine (hphase header)
      | _ => rfl
    | event hphase => rw [hphase]; rfl
    | word hphase hwords =>
      rw [hphase]
      exact if_pos hwords
    | function hphase hwords hfunction =>
      rw [hphase]
      dsimp only
      rw [if_neg (Nat.not_lt.2 hwords), if_pos hfunction]
    | var hphase hwords hfunction hemit =>
      rw [hphase]
      dsimp only
      rw [if_neg (Nat.not_lt.2 hwords), hfunction, if_neg Bool.false_ne_true, if_pos hemit]
    | hidden hphase hwords hfunction hemit =>
      rw [hphase]
      dsimp only
      rw [if_neg (Nat.not_lt.2 hwords), hfunction, if_neg Bool.false_ne_true, hemit,
        if_neg Bool.false_ne_true]
    | parameters hphase => rw [hphase]; rfl
    | body hphase => rw [hphase]
    | declarators hphase => rw [hphase]

theorem handle_rule (machine : Machine) (token : Token) :
    machine.Rule token (machine.handle token) := handle_eq_iff.1 rfl

theorem step_eq_iff : machine.step token = step ↔
    Rule { machine with steps := machine.steps + 1 } token step := handle_eq_iff

theorem step_rule (machine : Machine) (token : Token) :
    Rule { machine with steps := machine.steps + 1 } token (machine.step token) :=
  step_eq_iff.1 rfl

theorem end_rule (machine : Machine) : machine.EndRule machine.endHeader := endHeader_eq_iff.1 rfl

end CaplOutline.Outline.Machine
