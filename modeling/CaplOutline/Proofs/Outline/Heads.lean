-- How the machine reads what stands before a body, and the body itself. Each head
-- of the grammar leads it to the opening brace with exactly the symbol that the
-- head stands for, and code between braces leads it back to where it was.
import CaplOutline.Proofs.Outline.Adopt
import CaplOutline.Proofs.Outline.Leads
import CaplOutline.Proofs.Outline.Regular

namespace CaplOutline.Outline

open Machine

variable {machine : Machine}

/-! ## Code -/

theorem handle_of_settled (h : machine.settle = machine) {next : Machine} {token : Token}
    (hrule : machine.ScanRule token next) : machine.handle token = .consumed next :=
  handle_eq_iff.2 (.scan (phase_ne_of_settled h) hrule)

/-- Outside a header, only keywords and braces move the machine. -/
theorem leads_inert (h : machine.settle = machine) {token : Token}
    (htoken : token.kind.isInert = true) : Leads machine [token] machine := by
  have hpasses : machine.handle token = .consumed machine.settle := by
    refine handle_of_settled h (.passes (fun _ hkind => ?_) (fun hkind => ?_) (fun hkind => ?_))
    all_goals
      rw [hkind] at htoken
      cases htoken
  rw [h] at hpasses
  exact .one hpasses

/-- Code leaves no trace, wherever it stands. -/
theorem leads_body {body : List Token} (hbody : Body body) (h : machine.settle = machine) :
    Leads machine body machine := by
  induction hbody generalizing machine with
  | done => exact .nowhere machine
  | plain htoken _ ih => exact (leads_inert h htoken).trans (ih h)
  | @group opening closing inner rest hpair _ _ ihinner ihrest =>
    obtain ⟨hopening, hclosing⟩ := Prod.mk.inj (List.mem_singleton.1 hpair)
    have hopen : machine.handle opening = .consumed
        (machine.push none (if machine.scope = .topLevel then .code else machine.scope)) :=
      handle_of_settled h (.opens hopening)
    have hclose (between : Machine) (hbetween : between.settle = between) :
        between.handle closing = .consumed (between.pop closing.range.stop) :=
      handle_of_settled hbetween (.closes hclosing)
    apply Leads.consumed hopen
    apply (ihinner (settle_push ..)).trans
    apply Leads.consumed (hclose _ (settle_push ..))
    rw [pop_push_none h]
    exact ihrest h

/-! ## Words -/

/-- A word of the first line goes on with the declaration. -/
theorem handle_word {header : DeclarationHeader} {word : Token} (hword : word.isWord = true)
    (hblock : word.kind.opensBlock = false)
    (hline : word.kind.opensDeclaration = true → word.line ≤ header.last.range.stop.line) :
    (machine.readHeader (.declaration header)).handle word =
      .consumed (machine.readHeader (.declaration (header.addWord word))) := by
  have hends : header.endsAt word = false := by
    unfold DeclarationHeader.endsAt
    unfold Token.isWord TokenKind.isWord at hword
    split <;> simp_all
  exact handle_eq_iff.2 (.declaration rfl (.word (by rw [hends, Bool.and_false]) hblock hword))

theorem handle_identifier (machine : Machine) (header : DeclarationHeader) {name : Token}
    (hname : name.kind = .identifier) :
    (machine.readHeader (.declaration header)).handle name =
      .consumed (machine.readHeader (.declaration (header.addWord name))) := by
  apply handle_word
  · unfold Token.isWord
    rw [hname]
    rfl
  · rw [hname]
    rfl
  · rw [hname]
    exact nofun

/-- More words do not end the first line of a declaration, if they stand on it. -/
theorem leads_more {more : List Token} {header : DeclarationHeader} {line : Nat}
    (hwords : ∀ word ∈ more, word.isWord = true ∧ word.kind.opensBlock = false)
    (hlines : ∀ word ∈ more, word.line = line ∧ line ≤ word.range.stop.line)
    (hlast : line ≤ header.last.range.stop.line) :
    Leads (machine.readHeader (.declaration header)) more
      (machine.readHeader (.declaration (more.foldl DeclarationHeader.addWord header))) := by
  induction more generalizing header with
  | nil => exact .nowhere _
  | cons word more ih =>
    obtain ⟨hword, hblock⟩ := hwords word List.mem_cons_self
    obtain ⟨hline, hstop⟩ := hlines word List.mem_cons_self
    apply Leads.consumed (handle_word hword hblock fun _ => by rw [hline]; exact hlast)
    rw [List.foldl_cons]
    apply ih
    · exact fun word h => hwords word (List.mem_cons_of_mem _ h)
    · exact fun word h => hlines word (List.mem_cons_of_mem _ h)
    · exact hstop

theorem foldl_addWord (more : List Token) (header : DeclarationHeader) (name : Token) :
    (more.foldl DeclarationHeader.addWord header).addWord name =
      ⟨header.first, header.words + more.length + 1, some name, name⟩ := by
  induction more generalizing header with
  | nil => rfl
  | cons word more ih =>
    rw [List.foldl_cons, ih]
    simp only [DeclarationHeader.addWord, List.length_cons]
    congr 1
    omega

theorem Words.firstWords {keywords : List Keyword} {first : Token} {more : List Token}
    (h : Words keywords first more)
    (hkeywords : ∀ word ∈ keywords, word = .type ∨ word = .functionMarker) :
    FirstWords first more := by
  obtain ⟨⟨word, hmem, hfirst⟩, hmore, hline⟩ := h
  refine ⟨?_, ?_, hline⟩
  · rw [hfirst]
    rcases hkeywords word hmem with rfl | rfl <;> rfl
  · intro token htoken
    unfold Token.isWord
    rcases hmore token htoken with hkind | ⟨word, hmem, hkind⟩
    · rw [hkind]
      exact ⟨rfl, rfl⟩
    · rw [hkind]
      rcases hkeywords word hmem with rfl | rfl <;> exact ⟨rfl, rfl⟩

/-- The words of a declaration lead to its name, with at least two words read. -/
theorem leads_words {first name : Token} {more : List Token} (h : machine.settle = machine)
    (hwords : FirstWords first more) (hname : name.kind = .identifier)
    (hlines : ∀ token ∈ first :: more, token.line ≤ token.range.stop.line) :
    Leads machine (first :: (more ++ [name]))
      (machine.readHeader (.declaration ⟨first, 1 + more.length + 1, some name, name⟩)) := by
  obtain ⟨hopens, hmore, hline⟩ := hwords
  have hscan : machine.handle first =
      .consumed (machine.readHeader (.declaration (.ofToken first))) :=
    handle_of_settled h (.declaration hopens)
  have hmoreLines : ∀ token ∈ more,
      token.line = first.line ∧ first.line ≤ token.range.stop.line := by
    intro token htoken
    refine ⟨hline token htoken, ?_⟩
    rw [← hline token htoken]
    exact hlines token (List.mem_cons_of_mem _ htoken)
  apply Leads.consumed hscan
  apply (leads_more hmore hmoreLines (hlines first List.mem_cons_self)).trans
  have hheader : (more.foldl DeclarationHeader.addWord (.ofToken first)).addWord name =
      ⟨first, 1 + more.length + 1, some name, name⟩ := foldl_addWord more (.ofToken first) name
  rw [← hheader]
  exact .one (handle_identifier machine _ hname)

/-! ## Functions -/

/-- Parameters in balanced parentheses lead to the closing one. -/
theorem leads_parameters (machine : Machine) {parameters : List Token}
    (hparameters : Parameters parameters) (list : ParameterList) (hopen : 1 ≤ list.parens) :
    ∃ last, Leads (machine.readHeader (.parameters list)) parameters
      (machine.readHeader (.parameters { list with last })) := by
  induction hparameters generalizing list with
  | done => exact ⟨list.last, .nowhere _⟩
  | @plain token rest htoken _ ih =>
    obtain ⟨last, hrest⟩ := ih { list with last := token } hopen
    have htakes (kind : TokenKind) (hkind : kind.isParameter = false) : token.kind ≠ kind := by
      rintro rfl
      rw [htoken] at hkind
      cases hkind
    refine ⟨last, .consumed (handle_eq_iff.2 (.parameters rfl
      (.takes (htakes _ rfl) (htakes _ rfl) ?_))) hrest⟩
    simp only [List.mem_cons, List.not_mem_nil, or_false, not_or]
    exact ⟨htakes _ rfl, htakes _ rfl, htakes _ rfl, htakes _ rfl⟩
  | @group opening closing inner rest hpair _ _ ihinner ihrest =>
    obtain ⟨hopening, hclosing⟩ := Prod.mk.inj (List.mem_singleton.1 hpair)
    obtain ⟨last, hinner⟩ := ihinner { list with parens := list.parens + 1, last := opening }
      (Nat.le_add_left ..)
    obtain ⟨last', hrest⟩ := ihrest { list with last := closing } hopen
    refine ⟨last', .consumed ?_ (hinner.trans (.consumed ?_ hrest))⟩
    · exact handle_eq_iff.2 (.parameters rfl (.opens hopening))
    · exact handle_eq_iff.2 (.parameters rfl (.closes hclosing (Nat.lt_succ_of_le hopen)))

/-- An opening parenthesis behind the name of a declaration begins parameters. -/
theorem handle_openParen (machine : Machine) (header : DeclarationHeader) {opening : Token}
    (hkind : opening.kind = .openParen) (hwords : 2 ≤ header.words) :
    (machine.readHeader (.declaration header)).handle opening =
      .consumed (machine.readHeader (.parameters
        ⟨.ofTokens .function header.first header.name, header.first, 1, opening⟩)) :=
  handle_eq_iff.2 (.declaration rfl (.function hkind hwords))

/-- The words, the name and the parameters of a function lead to its body, or to its semicolon. -/
theorem leads_signature {first name opening closing : Token} {more parameters : List Token}
    (h : machine.settle = machine) (hwords : FirstWords first more)
    (hname : name.kind = .identifier) (hopening : opening.kind = .openParen)
    (hparameters : Parameters parameters) (hclosing : closing.kind = .closeParen)
    (hlines : ∀ token ∈ first :: more, token.line ≤ token.range.stop.line) :
    Leads machine (first :: (more ++ name :: opening :: (parameters ++ [closing])))
      (machine.readHeader (.awaitBody { Draft.ofTokens .function first (some name) with
        detail := some (detailOf
          (Text.slice machine.source first.span.start closing.span.stop)) } closing)) := by
  have hopen := handle_openParen machine ⟨first, 1 + more.length + 1, some name, name⟩ hopening
    (by dsimp only; omega)
  have hclose (list : ParameterList) (hparens : list.parens = 1) :
      (machine.readHeader (.parameters list)).handle closing = .consumed
        (machine.readHeader
          (.awaitBody (list.signed machine.source closing.span.stop) closing)) :=
    handle_eq_iff.2 (.parameters rfl (.ends hclosing (Nat.le_of_eq hparens)))
  obtain ⟨last, hinside⟩ := leads_parameters machine hparameters
    ⟨.ofTokens .function first (some name), first, 1, opening⟩ (Nat.le_refl 1)
  have hfirst : Leads machine (first :: (more ++ [name])) _ := leads_words h hwords hname hlines
  have hall := hfirst.trans (.consumed hopen (hinside.trans (.one (hclose _ rfl))))
  have htokens : first :: (more ++ [name]) ++ opening :: (parameters ++ [closing]) =
      first :: (more ++ name :: opening :: (parameters ++ [closing])) := by simp
  rw [htokens] at hall
  exact hall

theorem leads_functionHead {tokens : List Token} {draft : Draft} (h : machine.settle = machine)
    (hhead : FunctionHead machine.source tokens draft)
    (hlines : ∀ token ∈ tokens, token.line ≤ token.range.stop.line) :
    ∃ last, Leads machine tokens (machine.readHeader (.awaitBody draft last)) := by
  obtain @⟨first, name, opening, closing, more, parameters, hwords, hname, hopening, hparameters,
    hclosing⟩ := hhead
  refine ⟨closing, leads_signature h (hwords.firstWords (by simp)) hname hopening hparameters
    hclosing ?_⟩
  intro token htoken
  exact hlines token (by rcases List.mem_cons.1 htoken with h | h <;> simp [h])

/-! ## Events -/

/-- The arguments of an event, read one after the other. -/
theorem foldl_add (arguments : List Token) (header : EventHeader)
    (hname : header.name.isSome = true) :
    arguments.foldl EventHeader.add header =
      { header with
        arguments := header.arguments.or (arguments.head?.map (·.span.start))
        last := arguments.getLastD header.last } := by
  induction arguments generalizing header with
  | nil => simp
  | cons token arguments ih =>
    have hadd : header.add token =
        { header with
          arguments := header.arguments.or (some token.span.start)
          last := token } := by
      unfold EventHeader.add
      rw [if_neg (by simp [Option.isSome_iff_ne_none.1 hname])]
    rw [List.foldl_cons, hadd]
    refine (ih _ ?_).trans ?_
    · exact hname
    · rw [List.getLastD_cons]
      simp

theorem handle_argument {header : EventHeader} {token : Token}
    (hkind : token.kind.isArgument = true) (hline : token.line = header.first.line) :
    (machine.readHeader (.event header)).handle token =
      .consumed (machine.readHeader (.event (header.add token))) := by
  have hopen : token.kind ≠ .openBrace := by
    intro h; rw [h] at hkind; cases hkind
  have hclose : token.kind ≠ .closeBrace := by
    intro h; rw [h] at hkind; cases hkind
  have hsemicolon : token.kind ≠ .semicolon := by
    intro h; rw [h] at hkind; cases hkind
  have hblock : token.kind.opensBlock = false := by
    unfold TokenKind.isArgument at hkind
    split at hkind <;> simp_all
  exact handle_eq_iff.2 (.event rfl (.more hopen hsemicolon hclose hblock hline))

theorem leads_arguments {header : EventHeader} {arguments : List Token}
    (harguments : ∀ token ∈ arguments,
      token.kind.isArgument = true ∧ token.line = header.first.line) :
    Leads (machine.readHeader (.event header)) arguments
      (machine.readHeader (.event (arguments.foldl EventHeader.add header))) := by
  induction arguments generalizing header with
  | nil => exact .nowhere _
  | cons token arguments ih =>
    obtain ⟨hkind, hline⟩ := harguments token List.mem_cons_self
    have hfirst : (header.add token).first = header.first := by
      unfold EventHeader.add
      split <;> rfl
    apply Leads.consumed (handle_argument hkind hline)
    rw [List.foldl_cons]
    apply ih
    intro token htoken
    rw [hfirst]
    exact harguments token (List.mem_cons_of_mem _ htoken)

/-- The header of an event has, at its body, the name and the arguments of the event. -/
theorem draft_foldl_add (source : String) (opening : Token) {name : Token}
    (hname : name.isEventName = true) (arguments : List Token) :
    ((name :: arguments).foldl EventHeader.add (.ofToken opening)).draft source =
      { name := name.text
        detail := (argumentsOf source arguments).filter (· ≠ "")
        kind := .event
        start := opening.range.start
        selection := name.range
        children := #[] } := by
  have hadd : (EventHeader.ofToken opening).add name = ⟨opening, some name, none, name⟩ := by
    unfold EventHeader.add
    have hword : (name.isWord || name.text == "*") = true := by
      unfold Token.isEventName at hname
      unfold Token.isWord
      cases hkind : name.kind <;> simp_all [TokenKind.isWord]
    rw [hword]
    rfl
  rw [List.foldl_cons, hadd, foldl_add _ _ rfl]
  cases arguments with
  | nil => rfl
  | cons first rest =>
    unfold EventHeader.draft argumentsOf
    rw [List.getLastD_cons]
    rfl

/-- The name of an event and its arguments are read alike. -/
theorem isArgument_of_eventLine {first name : Token} {arguments : List Token}
    (hname : name.isEventName = true) (hline : name.line = first.line)
    (harguments : ∀ token ∈ arguments, token.kind.isArgument = true ∧ token.line = first.line) :
    ∀ token ∈ name :: arguments, token.kind.isArgument = true ∧ token.line = first.line := by
  refine List.forall_mem_cons.2 ⟨⟨?_, hline⟩, harguments⟩
  unfold Token.isEventName at hname
  cases hkind : name.kind <;> simp_all [TokenKind.isArgument, TokenKind.opensBlock]

/-- The first line of an event is read to its end. -/
theorem leads_eventLine {first : Token} {line : List Token} (h : machine.settle = machine)
    (hfirst : first.kind = .keyword .on)
    (hline : ∀ token ∈ line, token.kind.isArgument = true ∧ token.line = first.line) :
    Leads machine (first :: line)
      (machine.readHeader (.event (line.foldl EventHeader.add (.ofToken first)))) := by
  have hscan : machine.handle first = .consumed (machine.readHeader (.event (.ofToken first))) :=
    handle_of_settled h (.event hfirst)
  exact .consumed hscan (leads_arguments hline)

/-- An event leads to its body with the symbol that its first line stands for. -/
theorem leads_event {first opening : Token} {line : List Token} (h : machine.settle = machine)
    (hfirst : first.kind = .keyword .on)
    (hline : ∀ token ∈ line, token.kind.isArgument = true ∧ token.line = first.line)
    (hopening : opening.kind = .openBrace) :
    Leads machine (first :: line ++ [opening])
      (machine.push (some ((line.foldl EventHeader.add (.ofToken first)).draft machine.source))
        .code) := by
  have hopen (header : EventHeader) : (machine.readHeader (.event header)).handle opening =
      .consumed (machine.push (header.draft machine.source) .code) :=
    handle_eq_iff.2 (.event rfl (.body hopening))
  exact (leads_eventLine h hfirst hline).trans (.one (hopen _))

/-! ## Structs and enums -/

/-- A brace behind the word of a struct or an enum, or behind its name, opens its body. -/
theorem handle_aggregate (machine : Machine) {header : DeclarationHeader} {opening : Token}
    {detail : String} (hopening : opening.kind = .openBrace)
    (haggregate : header.aggregate? = some detail) :
    (machine.readHeader (.declaration header)).handle opening =
      .consumed (machine.push (some { Draft.ofTokens .container header.first header.name with
        detail := some detail }) .block) := by
  rw [← haggregate]
  exact handle_eq_iff.2 (.declaration rfl (.aggregate hopening (by simp [haggregate])))

/-- A struct or an enum leads to its body, with its name or without it. -/
theorem leads_aggregate {word opening : Token} {name : Option Token} {detail : String}
    (h : machine.settle = machine)
    (hword : word.kind = .keyword .struct ∧ detail = "struct" ∨
      word.kind = .keyword .enum ∧ detail = "enum")
    (hname : ∀ token ∈ name, token.kind = .identifier) (hopening : opening.kind = .openBrace) :
    Leads machine (word :: name.toList ++ [opening])
      (machine.push (some { Draft.ofTokens .container word name with detail := some detail })
        .block) := by
  have hscan : machine.handle word =
      .consumed (machine.readHeader (.declaration (.ofToken word))) := by
    apply handle_of_settled h (.declaration ?_)
    rcases hword with ⟨hkind, -⟩ | ⟨hkind, -⟩ <;> rw [hkind] <;> rfl
  have haggregate (header : DeclarationHeader) (hfirst : header.first = word) :
      header.aggregate? = some detail := by
    unfold DeclarationHeader.aggregate?
    rw [hfirst]
    rcases hword with ⟨hkind, rfl⟩ | ⟨hkind, rfl⟩ <;> rw [hkind]
  cases name with
  | none =>
    have hbody := haggregate (.ofToken word) rfl
    exact .consumed hscan (.one (handle_aggregate machine hopening hbody))
  | some name =>
    have hkind := hname name rfl
    have hnamed : (machine.readHeader (.declaration (.ofToken word))).handle name = .consumed
        (machine.readHeader (.declaration ((DeclarationHeader.ofToken word).addWord name))) :=
      handle_identifier machine (.ofToken word) hkind
    have hbody := haggregate ((DeclarationHeader.ofToken word).addWord name) rfl
    exact .consumed hscan (.consumed hnamed (.one (handle_aggregate machine hopening hbody)))

/-! ## Every head -/

theorem handle_body (machine : Machine) (draft : Draft) (last : Token) {opening : Token}
    (hopening : opening.kind = .openBrace) :
    (machine.readHeader (.awaitBody draft last)).handle opening =
      .consumed (machine.push (some draft) draft.bodyScope) :=
  handle_eq_iff.2 (.body rfl (.body hopening))

theorem Head.children_eq {source : String} {tokens : List Token} {draft : Draft}
    (h : Head source tokens draft) : draft.children = #[] := by
  cases h with
  | function h => cases h; rfl
  | _ => rfl

/-- Every head leads to its body, with the symbol that it stands for. -/
theorem leads_head {tokens : List Token} {draft : Draft} {opening : Token}
    (h : machine.settle = machine) (hhead : Head machine.source tokens draft)
    (hlines : ∀ token ∈ tokens, token.line ≤ token.range.stop.line)
    (hopening : opening.kind = .openBrace) :
    Leads machine (tokens ++ [opening]) (machine.push (some draft) draft.bodyScope) := by
  cases hhead with
  | function hhead =>
    obtain ⟨last, hleads⟩ := leads_functionHead h hhead hlines
    exact hleads.trans (.one (handle_body machine draft last hopening))
  | event hfirst hname hline harguments =>
    have hleads := leads_event h hfirst (isArgument_of_eventLine hname hline harguments) hopening
    rw [draft_foldl_add machine.source _ hname] at hleads
    exact hleads
  | @block word hword =>
    have hscan : machine.handle word =
        .consumed (machine.readHeader (.awaitBody (.ofTokens .container word word) word)) :=
      handle_of_settled h (.block hword)
    exact .consumed hscan (.one (handle_body machine _ word hopening))
  | aggregate hword hname => exact leads_aggregate h hword hname hopening

end CaplOutline.Outline
