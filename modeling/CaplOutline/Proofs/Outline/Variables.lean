-- How the machine reads the variables of one declaration. The counters of a list of
-- declarators come back to where they were behind every group in brackets. So no
-- comma in a group ends a variable, and every comma outside of groups does.
import CaplOutline.Proofs.Outline.Heads

namespace CaplOutline.Outline

open Machine

variable {machine : Machine}

/-! ## Counting brackets -/

namespace DeclaratorList

variable {opening closing : Token}

theorem mem_allPairs (h : (opening.kind, closing.kind) ∈ TokenKind.allPairs) :
    opening.kind = .openParen ∧ closing.kind = .closeParen ∨
      opening.kind = .openBracket ∧ closing.kind = .closeBracket ∨
        opening.kind = .openBrace ∧ closing.kind = .closeBrace := by
  simpa [TokenKind.allPairs, TokenKind.parens, TokenKind.brackets, TokenKind.braces] using h

theorem isTop_add_opening (list : DeclaratorList)
    (hpair : (opening.kind, closing.kind) ∈ TokenKind.allPairs) :
    (list.add opening).isTop = false := by
  unfold isTop add
  rcases mem_allPairs hpair with ⟨hopening, -⟩ | ⟨hopening, -⟩ | ⟨hopening, -⟩ <;>
    rw [hopening] <;> simp

/-- The closing bracket of a group takes back what the opening one has counted. -/
theorem add_closing (list : DeclaratorList)
    (hpair : (opening.kind, closing.kind) ∈ TokenKind.allPairs) (afterGroup : Bool) (last : Token) :
    ({ list.add opening with afterGroup, last }).add closing =
      { list with
        afterGroup := closing.kind == .closeParen && list.isTop
        last := closing } := by
  unfold isTop add
  rcases mem_allPairs hpair with ⟨hopen, hclose⟩ | ⟨hopen, hclose⟩ | ⟨hopen, hclose⟩ <;>
    rw [hopen, hclose] <;> simp [Bool.and_assoc]

theorem endsBefore_opening (list : DeclaratorList)
    (hpair : (opening.kind, closing.kind) ∈ TokenKind.allPairs)
    (hopen : opening.kind = .openBrace → (list.isTop && list.afterGroup) = false) :
    list.endsBefore opening = false := by
  unfold endsBefore
  rcases mem_allPairs hpair with ⟨hopening, -⟩ | ⟨hopening, -⟩ | ⟨hopening, -⟩
  · rw [hopening]; rfl
  · rw [hopening]; rfl
  · rw [hopening]; exact hopen hopening

theorem endsBefore_closing (list : DeclaratorList)
    (hpair : (opening.kind, closing.kind) ∈ TokenKind.allPairs) (afterGroup : Bool) (last : Token) :
    ({ list.add opening with afterGroup, last }).endsBefore closing = false := by
  unfold endsBefore add
  rcases mem_allPairs hpair with ⟨hopen, hclose⟩ | ⟨hopen, hclose⟩ | ⟨hopen, hclose⟩ <;>
    rw [hopen, hclose] <;> simp [TokenKind.opensBlock, TokenKind.opensDeclaration]

theorem endsBefore_value (list : DeclaratorList) {token : Token} (h : token.kind.isValue = true) :
    list.endsBefore token = false := by
  unfold endsBefore
  cases hkind : token.kind <;>
    simp_all [TokenKind.isValue, TokenKind.opensBlock, TokenKind.opensDeclaration]

theorem add_value (list : DeclaratorList) {token : Token} (h : token.kind.isValue = true) :
    list.add token = { list with afterGroup := false, last := token } := by
  unfold add
  cases hkind : token.kind <;> simp_all [TokenKind.isValue]

end DeclaratorList

/-! ## What follows a name -/

/-- A token that ends nothing and names nothing is counted. -/
theorem handle_add (machine : Machine) {list : DeclaratorList} {token : Token}
    (hname : (list.isTop && list.current.isNone && token.isWord) = false)
    (hsemicolon : token.kind ≠ .semicolon) (hends : list.endsBefore token = false)
    (hcomma : token.kind = .comma → list.isTop = false) :
    (machine.readHeader (.declarators list)).handle token =
      .consumed (machine.readHeader (.declarators (list.add token))) := by
  exact handle_eq_iff.2 (.declarators rfl (.takes hsemicolon hends hcomma hname))

/-- Outside of all brackets a comma reports the variable that the list is at. -/
theorem handle_reports (machine : Machine) {list : DeclaratorList} {comma : Token}
    (hcomma : comma.kind = .comma) (htop : list.isTop = true) :
    (machine.readHeader (.declarators list)).handle comma =
      .consumed (((machine.readHeader (.declarators list)).report list
        list.last.range.stop).readHeader
          (.declarators { list with current := none, afterGroup := false, last := comma })) := by
  have hvalue : comma.kind.isValue = true := by
    rw [hcomma]
    rfl
  rw [handle_eq_iff.2 (.declarators rfl (.comma hcomma htop)), DeclaratorList.add_value _ hvalue]

/-- And a word names the next one. -/
theorem handle_names (machine : Machine) {list : DeclaratorList} {name : Token}
    (hword : name.isWord = true) (hvalue : name.kind.isValue = true) (htop : list.isTop = true)
    (hcurrent : list.current = none) :
    (machine.readHeader (.declarators list)).handle name =
      .consumed (machine.readHeader (.declarators
        { list with
          current := some (.ofTokens .var name (some name))
          afterGroup := false
          last := name })) := by
  have hends := list.endsBefore_value hvalue
  rw [handle_eq_iff.2 (.declarators rfl (.name hends htop hcurrent hword)),
    DeclaratorList.add_value _ hvalue]
  rfl

/-- The list behind `tokens`, of which none has ended anything. -/
def DeclaratorList.past (list : DeclaratorList) (tokens : List Token) (afterGroup : Bool) :
    DeclaratorList :=
  { list with afterGroup, last := tokens.getLastD list.last }

/-- The machine stays in the list: behind `tokens` no more has changed than the last token, and
whether it has just closed a group. -/
def StaysIn (list : DeclaratorList) (tokens : List Token) (afterGroup : Bool) : Prop :=
  ∀ machine : Machine, Leads (machine.readHeader (.declarators list)) tokens
    (machine.readHeader (.declarators (list.past tokens afterGroup)))

theorem staysIn_nil (list : DeclaratorList) : StaysIn list [] list.afterGroup :=
  fun _ => .nowhere _

theorem StaysIn.append {list : DeclaratorList} {tokens tokens' : List Token} {afterGroup : Bool}
    (h : StaysIn list tokens afterGroup)
    (h' : ∃ afterGroup', StaysIn (list.past tokens afterGroup) tokens' afterGroup') :
    ∃ afterGroup', StaysIn list (tokens ++ tokens') afterGroup' := by
  obtain ⟨afterGroup', h'⟩ := h'
  refine ⟨afterGroup', ?_⟩
  have hpast : list.past (tokens ++ tokens') afterGroup' =
      (list.past tokens afterGroup).past tokens' afterGroup' := by
    unfold DeclaratorList.past
    simp only [List.getLastD_eq_getLast?, List.getLast?_append, Option.getD_or]
  intro machine
  rw [hpast]
  exact (h machine).trans (h' machine)

theorem group_append (opening closing : Token) (inner rest : List Token) :
    opening :: (inner ++ closing :: rest) = opening :: (inner ++ [closing]) ++ rest := by
  simp

theorem staysIn_value {list : DeclaratorList} {token : Token}
    (hname : (list.isTop && list.current.isNone && token.isWord) = false)
    (hvalue : token.kind.isValue = true) (hcomma : token.kind = .comma → list.isTop = false) :
    StaysIn list [token] false := by
  intro machine
  have hsemicolon : token.kind ≠ .semicolon := by
    intro h
    rw [h] at hvalue
    cases hvalue
  have hadd := handle_add machine hname hsemicolon (list.endsBefore_value hvalue) hcomma
  rw [list.add_value hvalue] at hadd
  exact .one hadd

/-- A group leaves the list as it was, if what is in it does so. -/
theorem staysIn_group {list : DeclaratorList} {opening closing : Token} {inner : List Token}
    (hpair : (opening.kind, closing.kind) ∈ TokenKind.allPairs)
    (hopen : opening.kind = .openBrace → (list.isTop && list.afterGroup) = false)
    (hinner : ∃ afterGroup, StaysIn (list.add opening) inner afterGroup) :
    StaysIn list (opening :: (inner ++ [closing])) (closing.kind == .closeParen && list.isTop) := by
  intro machine
  obtain ⟨afterGroup, hinner⟩ := hinner
  have hplain : (opening.isWord = false ∧ opening.kind ≠ .semicolon ∧ opening.kind ≠ .comma) ∧
      closing.isWord = false ∧ closing.kind ≠ .semicolon ∧ closing.kind ≠ .comma := by
    unfold Token.isWord
    rcases DeclaratorList.mem_allPairs hpair with ⟨h, h'⟩ | ⟨h, h'⟩ | ⟨h, h'⟩ <;>
      rw [h, h'] <;> decide
  obtain ⟨⟨hword, hsemicolon, hcomma⟩, hword', hsemicolon', hcomma'⟩ := hplain
  have hopening := handle_add machine (by rw [hword, Bool.and_false]) hsemicolon
    (list.endsBefore_opening hpair hopen) fun h => absurd h hcomma
  have hclosing := handle_add machine (by rw [hword', Bool.and_false]) hsemicolon'
    (list.endsBefore_closing hpair afterGroup (inner.getLastD opening)) fun h => absurd h hcomma'
  unfold DeclaratorList.past at hclosing ⊢
  rw [list.add_closing hpair] at hclosing
  rw [← List.cons_append, List.getLastD_concat]
  exact .consumed hopening ((hinner machine).trans (.one hclosing))

/-- What stands in brackets ends nothing. -/
theorem staysIn_enclosed {tokens : List Token} (h : Enclosed tokens) (list : DeclaratorList)
    (htop : list.isTop = false) : ∃ afterGroup, StaysIn list tokens afterGroup := by
  induction h generalizing list with
  | done => exact ⟨_, staysIn_nil list⟩
  | plain htoken _ ih =>
    have hfirst := staysIn_value (by simp [htop]) htoken fun _ => htop
    exact hfirst.append (ih _ htop)
  | group hpair _ _ ihinner ihrest =>
    have hinner := ihinner (list.add _) (list.isTop_add_opening hpair)
    have hfirst := staysIn_group hpair (by simp [htop]) hinner
    rw [group_append]
    exact hfirst.append (ihrest _ htop)

theorem staysIn_sizes {tokens : List Token} (h : Sizes tokens) (list : DeclaratorList) :
    ∃ afterGroup, StaysIn list tokens afterGroup := by
  induction h generalizing list with
  | done => exact ⟨_, staysIn_nil list⟩
  | @size opening closing inner rest hpair hinner _ ih =>
    have hmem : (opening.kind, closing.kind) ∈ TokenKind.allPairs := by
      rw [hpair]
      decide
    have hopen : opening.kind ≠ .openBrace := by
      rw [(Prod.mk.inj hpair).1]
      decide
    have hinner := staysIn_enclosed hinner (list.add _) (list.isTop_add_opening hmem)
    have hfirst := staysIn_group hmem (fun h => absurd h hopen) hinner
    rw [group_append]
    exact hfirst.append (ih _)

theorem staysIn_firstValue {tokens : List Token} {afterGroup : Bool} (h : Value afterGroup tokens)
    (list : DeclaratorList) (hcurrent : list.current.isSome = true) (htop : list.isTop = true)
    (hafter : list.afterGroup = afterGroup) : ∃ afterGroup, StaysIn list tokens afterGroup := by
  induction h generalizing list with
  | done => exact ⟨_, staysIn_nil list⟩
  | @plain _ token _ htoken hcomma _ ih =>
    have hname : (list.isTop && list.current.isNone && token.isWord) = false := by
      simp [Option.isSome_iff_ne_none.1 hcurrent]
    have hfirst := staysIn_value hname htoken fun h => absurd h hcomma
    exact hfirst.append (ih _ hcurrent htop rfl)
  | group hpair hopen hinner _ ih =>
    have hinner := staysIn_enclosed hinner (list.add _) (list.isTop_add_opening hpair)
    have hfirst := staysIn_group hpair (fun h => by rw [hafter, hopen h, Bool.and_false]) hinner
    rw [htop, Bool.and_true] at hfirst
    rw [group_append]
    exact hfirst.append (ih _ hcurrent htop rfl)

/-- The sizes and the first value of a variable do not end it. -/
theorem staysIn_tail {tokens : List Token} (h : Tail tokens) (list : DeclaratorList)
    (hcurrent : list.current.isSome = true) (htop : list.isTop = true) :
    ∃ afterGroup, StaysIn list tokens afterGroup := by
  cases h with
  | plain hsizes => exact staysIn_sizes hsizes list
  | @assigned sizes value assign hsizes hassign hvalue =>
    obtain ⟨afterGroup, hfirst⟩ := staysIn_sizes hsizes list
    have hequals : StaysIn (list.past sizes afterGroup) [assign] false :=
      staysIn_value (by simp [Token.isWord, TokenKind.isWord, hassign]) (by rw [hassign]; rfl)
        fun h => by rw [hassign] at h; cases h
    have hrest := staysIn_firstValue hvalue ((list.past sizes afterGroup).past [assign] false)
      hcurrent htop rfl
    exact hfirst.append (hequals.append hrest)

/-! ## One declaration -/

/-- The list of declarators in which a variable was just named. -/
def listAt (typeText : String) (start : Position) (name : Token) : DeclaratorList :=
  { current := some
      { name := name.text
        detail := none
        kind := .var
        start
        selection := name.range
        children := #[] }
    typeText := some typeText
    emit := true
    parens := 0
    braces := 0
    afterGroup := false
    last := name }

theorem report_listAt (machine : Machine) (typeText : String) (start : Position) (name : Token)
    (tokens : List Token) (afterGroup : Bool) (stop : Position) :
    machine.report ((listAt typeText start name).past tokens afterGroup) stop =
      machine.adopt (variableOf machine.options typeText start name stop) :=
  rfl

/-- A semicolon reports the last variable. -/
theorem handle_semicolon (machine : Machine) (typeText : String) (start : Position) (name : Token)
    (tokens : List Token) (afterGroup : Bool) {semicolon : Token}
    (hsemicolon : semicolon.kind = .semicolon) :
    (machine.readHeader (.declarators ((listAt typeText start name).past tokens afterGroup))).handle
        semicolon =
      .consumed (machine.adopt
        (variableOf machine.options typeText start name semicolon.range.stop)).settle := by
  rw [handle_eq_iff.2 (.declarators rfl (.semicolon hsemicolon)), report_listAt, adopt_readHeader]
  rfl

/-- The list behind a comma: no variable is named. -/
def listBehind (typeText : String) (comma : Token) : DeclaratorList :=
  { listAt typeText comma.range.start comma with current := none }

/-- A comma outside of groups reports a variable. -/
theorem handle_comma (machine : Machine) (typeText : String) (start : Position) (name : Token)
    (tokens : List Token) (afterGroup : Bool) {comma : Token} (hcomma : comma.kind = .comma) :
    (machine.readHeader (.declarators ((listAt typeText start name).past tokens afterGroup))).handle
        comma =
      .consumed ((machine.adopt (variableOf machine.options typeText start name
        (tokens.getLastD name).range.stop)).readHeader
          (.declarators (listBehind typeText comma))) := by
  rw [handle_reports machine hcomma rfl, report_listAt, adopt_readHeader]
  rfl

/-- A name behind a comma is the next variable. -/
theorem handle_next (machine : Machine) (typeText : String) (comma : Token) {next : Token}
    (hnext : next.kind = .identifier) :
    (machine.readHeader (.declarators (listBehind typeText comma))).handle next =
      .consumed (machine.readHeader (.declarators (listAt typeText next.range.start next))) := by
  exact handle_names machine (by unfold Token.isWord; rw [hnext]; rfl) (by rw [hnext]; rfl) rfl rfl

/-- A variable behind which another one is named is reported. -/
theorem leads_comma (machine : Machine) (typeText : String) (start : Position) (name : Token)
    {comma next : Token} {tail : List Token} (htail : Tail tail) (hcomma : comma.kind = .comma)
    (hnext : next.kind = .identifier) :
    Leads (machine.readHeader (.declarators (listAt typeText start name))) (tail ++ [comma, next])
      ((machine.adopt (variableOf machine.options typeText start name
        (tail.getLastD name).range.stop)).readHeader
          (.declarators (listAt typeText next.range.start next))) := by
  obtain ⟨afterGroup, hstays⟩ := staysIn_tail htail (listAt typeText start name) rfl rfl
  have hbetween := handle_comma machine typeText start name tail afterGroup hcomma
  have hname := handle_next (machine.adopt (variableOf machine.options typeText start name
    (tail.getLastD name).range.stop)) typeText comma hnext
  exact (hstays machine).trans (.consumed hbetween (.one hname))

/-- The machine reports the variables of the list, one by one. -/
theorem leads_declarators {typeText : String} {start : Position} {name : Token}
    {tokens : List Token} {symbols : List Symbol} {options : Options}
    (h : Declarators options typeText start name tokens symbols)
    (hsettle : machine.settle = machine) (hoptions : machine.options = options) :
    Leads (machine.readHeader (.declarators (listAt typeText start name))) tokens
      (machine.adoptAll symbols) := by
  induction h generalizing machine with
  | @last start name semicolon tail htail hsemicolon =>
    obtain ⟨afterGroup, hstays⟩ := staysIn_tail htail (listAt typeText start name) rfl rfl
    have hlast := handle_semicolon machine typeText start name tail afterGroup hsemicolon
    rw [settle_adopt hsettle, hoptions] at hlast
    exact (hstays machine).trans (.one hlast)
  | @more start name comma next tail rest symbols htail hcomma hnext _ ih =>
    have hfirst := leads_comma machine typeText start name htail hcomma hnext
    rw [hoptions] at hfirst
    have hrest := ih (settle_adopt hsettle (variableOf options typeText start name
      (tail.getLastD name).range.stop)) (by rw [options_adopt, hoptions])
    rw [List.append_cons tail, List.append_cons _ next, List.append_assoc tail]
    exact hfirst.trans hrest

/-- What follows a name ends the first words of the declaration, if it is there or if the token
behind it does so. -/
theorem Tail.endsAt {tail rest : List Token} {token : Token} (h : Tail tail)
    {header : DeclarationHeader} (htoken : tail = [] → header.endsAt token = true) :
    ∃ token' rest', tail ++ token :: rest = token' :: rest' ∧ header.endsAt token' = true := by
  have hsizes {sizes rest : List Token} {token : Token} (h : Sizes sizes)
      (htoken : sizes = [] → header.endsAt token = true) :
      ∃ token' rest', sizes ++ token :: rest = token' :: rest' ∧ header.endsAt token' = true := by
    cases h with
    | done => exact ⟨token, rest, rfl, htoken rfl⟩
    | size hpair =>
      refine ⟨_, _, rfl, ?_⟩
      unfold DeclarationHeader.endsAt
      rw [(Prod.mk.inj hpair).1]
  cases h with
  | plain h => exact hsizes h htoken
  | assigned h hassign =>
    rw [List.append_assoc]
    apply hsizes h
    intro _
    unfold DeclarationHeader.endsAt
    rw [hassign]

theorem DeclarationHeader.endsAt_semicolon (header : DeclarationHeader) {semicolon : Token}
    (h : semicolon.kind = .semicolon) : header.endsAt semicolon = true := by
  unfold endsAt
  rw [h]

theorem DeclarationHeader.endsAt_comma (header : DeclarationHeader) {comma : Token}
    (h : comma.kind = .comma) : header.endsAt comma = true := by
  unfold endsAt
  rw [h]

theorem Declarators.endsAt {options : Options} {typeText : String} {start : Position} {name : Token}
    {tokens : List Token} {symbols : List Symbol}
    (h : Declarators options typeText start name tokens symbols) (header : DeclarationHeader) :
    ∃ token rest, tokens = token :: rest ∧ header.endsAt token = true := by
  cases h with
  | last h hsemicolon => exact h.endsAt fun _ => header.endsAt_semicolon hsemicolon
  | more h hcomma => exact h.endsAt fun _ => header.endsAt_comma hcomma

/-- The token that ends the first words of a variable is handled again in the list of its
declarators. -/
theorem handle_endsAt (h : machine.Ready) {first name token : Token} {words : Nat}
    (hfirst : first.kind = .keyword .type) (hwords : 2 ≤ words)
    (hends : DeclarationHeader.endsAt ⟨first, words, some name, name⟩ token = true) :
    (machine.readHeader (.declaration ⟨first, words, some name, name⟩)).handle token =
      .retry (machine.readHeader (.declarators (listAt
        (detailOf (Text.slice machine.source first.span.start name.span.start)) first.range.start
        name))) := by
  have hreports : machine.reportsVariables = true := by
    unfold reportsVariables
    simp [h.reports]
  have hdeclarator : DeclarationHeader.hasDeclarator ⟨first, words, some name, name⟩ = true := by
    unfold DeclarationHeader.hasDeclarator DeclarationHeader.isFunction
    rw [hfirst]
    simpa using hwords
  rw [handle_eq_iff.2 (.declaration rfl (.var hdeclarator hends))]
  unfold readDeclarators listAt
  rw [← hreports]
  rfl

/-- All variables of one declaration are reported, each with the words of the type. -/
theorem leads_variables {first name : Token} {more tokens : List Token} {symbols : List Symbol}
    (h : machine.Ready) (hwords : Words [.type] first more) (hname : name.kind = .identifier)
    (hdeclarators : Declarators machine.options
      (detailOf (Text.slice machine.source first.span.start name.span.start)) first.range.start name
      tokens symbols)
    (hlines : ∀ token ∈ first :: more, token.line ≤ token.range.stop.line) :
    Leads machine (first :: (more ++ name :: tokens)) (machine.adoptAll symbols) := by
  have hfirst : first.kind = .keyword .type := by
    obtain ⟨word, hmem, hfirst⟩ := hwords.opens
    rw [hfirst, List.mem_singleton.1 hmem]
  have hnamed := leads_words h.settled (hwords.firstWords (by simp)) hname hlines
  obtain ⟨token, rest, rfl, hends⟩ :=
    hdeclarators.endsAt ⟨first, 1 + more.length + 1, some name, name⟩
  have hretry := handle_endsAt h hfirst (by omega) hends
  have htokens : first :: (more ++ name :: token :: rest) =
      first :: (more ++ [name]) ++ token :: rest := by simp
  rw [htokens]
  exact hnamed.trans (.retry hretry (leads_declarators hdeclarators h.settled rfl))

end CaplOutline.Outline
