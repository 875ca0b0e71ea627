-- The machine recognises the grammar. Whatever declarations a source is made of, and
-- however deep they are nested, its outline is the list of symbols that the grammar
-- gives them: none is lost, none is added, and nothing in them is different.
import CaplOutline.Proofs.Outline.Variables
import CaplOutline.Proofs.Token.Reading

namespace CaplOutline.Outline

open Machine

variable {machine : Machine}

/-! ## One declaration after the other -/

theorem handle_close (h : machine.settle = machine) {closing : Token}
    (hclosing : closing.kind = .closeBrace) :
    machine.handle closing = .consumed (machine.pop closing.range.stop) := by
  rw [handle_of_settled h (.closes hclosing)]

/-- The closing brace leads from the symbols in the braces to the symbol that these stand for. -/
theorem leads_closing (h : machine.Ready) {draft : Draft} (hdraft : draft.children = #[])
    (children : List Symbol) {closing : Token} (hclosing : closing.kind = .closeBrace) :
    Leads ((machine.push (some draft) draft.bodyScope).adoptAll children) [closing]
      (machine.adoptAll
        (symbolsOf machine.options machine.nesting draft closing.range.stop children)) := by
  have hsettle := settle_adoptAll (settle_push machine (some draft) draft.bodyScope) children
  have hclose := handle_close hsettle hclosing
  rw [pop_adoptAll_push h hdraft] at hclose
  exact .one hclose

/-- A head, what its braces hold, and the closing brace lead to the symbol that they stand for. -/
theorem leads_braced {head inner : List Token} {opening closing : Token} {draft : Draft}
    {children : List Symbol} (h : machine.Ready) (hdraft : draft.children = #[])
    (hhead : Leads machine (head ++ [opening]) (machine.push (some draft) draft.bodyScope))
    (hclosing : closing.kind = .closeBrace)
    (hinner : Leads (machine.push (some draft) draft.bodyScope) inner
      ((machine.push (some draft) draft.bodyScope).adoptAll children)) :
    Leads machine (head ++ opening :: (inner ++ [closing]))
      (machine.adoptAll
        (symbolsOf machine.options machine.nesting draft closing.range.stop children)) := by
  rw [List.append_cons]
  exact hhead.trans (hinner.trans (leads_closing h hdraft children hclosing))

theorem leads_then {tokens rest : List Token} {symbols symbols' : List Symbol}
    (h : Leads machine tokens (machine.adoptAll symbols))
    (hrest : Leads (machine.adoptAll symbols) rest ((machine.adoptAll symbols).adoptAll symbols')) :
    Leads machine (tokens ++ rest) (machine.adoptAll (symbols ++ symbols')) := by
  rw [adoptAll_append]
  exact h.trans hrest

theorem leads_prototype {head : List Token} {semicolon last : Token} {draft : Draft}
    (h : machine.settle = machine)
    (hhead : Leads machine head (machine.readHeader (.awaitBody draft last)))
    (hsemicolon : semicolon.kind = .semicolon) :
    Leads machine (head ++ [semicolon])
      (machine.adoptAll [draft.finish machine.options.includeDetails semicolon.range.stop]) := by
  have hclose : (machine.readHeader (.awaitBody draft last)).handle semicolon =
      .consumed (machine.adopt
        (draft.finish machine.options.includeDetails semicolon.range.stop)).settle := by
    rw [handle_eq_iff.2 (.body rfl (.semicolon hsemicolon)), close, attach_eq_adopt,
      adopt_readHeader]
    rfl
  rw [settle_adopt h] at hclose
  exact hhead.trans (.one hclose)

/-- The machine stands between two declarations of this source, below `level` open symbols. -/
structure StandsIn (source : String) (options : Options) (level : Nat) (machine : Machine) : Prop
    where
  ready : machine.Ready
  source_eq : machine.source = source
  options_eq : machine.options = options
  nesting_eq : machine.nesting = level

/-- It stands there still when it has taken in symbols. -/
theorem StandsIn.adoptAll {source : String} {options : Options} {level : Nat}
    (h : StandsIn source options level machine) (symbols : List Symbol) :
    StandsIn source options level (machine.adoptAll symbols) := by
  induction symbols generalizing machine with
  | nil => exact h
  | cons symbol symbols ih =>
    obtain ⟨hready, hsource, hoptions, hnesting⟩ := h
    apply ih
    refine ⟨hready.adopt symbol, ?_, ?_, ?_⟩
    · rw [source_adopt, hsource]
    · rw [options_adopt, hoptions]
    · rw [nesting_adopt, hnesting]

/-- The declarations of a source lead to the symbols that they stand for. -/
theorem leads_items {source : String} {options : Options} {level : Nat} {tokens : List Token}
    {symbols : List Symbol} (h : Items source options level tokens symbols)
    (hstands : StandsIn source options level machine)
    (hlines : ∀ token ∈ tokens, token.line ≤ token.range.stop.line) :
    Leads machine tokens (machine.adoptAll symbols) := by
  induction h generalizing machine with
  | done => exact .nowhere machine
  | inert htoken _ ih =>
    have hfirst := leads_inert hstands.ready.settled htoken
    exact hfirst.trans (ih hstands fun token h => hlines token (List.mem_cons_of_mem _ h))
  | @code level head body rest opening closing draft symbols hhead _ hpair hbody _ ih =>
    obtain ⟨hready, rfl, rfl, rfl⟩ := hstands
    obtain ⟨hopening, hclosing⟩ := Prod.mk.inj hpair
    have hleads := leads_head hready.settled hhead (fun token h => hlines token (by simp [h]))
      hopening
    have hinner := leads_body hbody (settle_push machine (some draft) draft.bodyScope)
    have hfirst : Leads machine _ (machine.adoptAll (symbolsOf _ _ draft closing.range.stop [])) :=
      leads_braced hready hhead.children_eq hleads hclosing hinner
    have hall := leads_then hfirst (ih (StandsIn.adoptAll ⟨hready, rfl, rfl, rfl⟩ _)
      fun token h => hlines token (by simp [h]))
    simpa using hall
  | @container level head inner rest opening closing draft children symbols hhead hkind hpair _ _
      ihinner ihrest =>
    obtain ⟨hready, rfl, rfl, rfl⟩ := hstands
    have hscope : draft.bodyScope ≠ .code := by
      unfold Draft.bodyScope
      rw [if_pos hkind]
      exact nofun
    have hinner := ihinner ⟨hready.push draft hscope, rfl, rfl, nesting_push_some ..⟩
      fun token h => hlines token (by simp [h])
    obtain ⟨hopening, hclosing⟩ := Prod.mk.inj hpair
    have hleads := leads_head hready.settled hhead (fun token h => hlines token (by simp [h]))
      hopening
    have hfirst := leads_braced hready hhead.children_eq hleads hclosing hinner
    have hall := leads_then hfirst (ihrest (StandsIn.adoptAll ⟨hready, rfl, rfl, rfl⟩ _)
      fun token h => hlines token (by simp [h]))
    simpa using hall
  | @prototype level head rest semicolon draft symbols hhead hsemicolon _ ih =>
    obtain ⟨hready, rfl, rfl, rfl⟩ := hstands
    obtain ⟨last, hleads⟩ := leads_functionHead hready.settled hhead
      fun token h => hlines token (by simp [h])
    have hfirst := leads_prototype hready.settled hleads hsemicolon
    have hall := leads_then hfirst (ih (StandsIn.adoptAll ⟨hready, rfl, rfl, rfl⟩ _)
      fun token h => hlines token (by simp [h]))
    simpa using hall
  | @variableList level first name more tokens rest symbols symbols' hwords hname hdeclarators _ ih =>
    obtain ⟨hready, rfl, rfl, rfl⟩ := hstands
    have hfirst := leads_variables hready hwords hname hdeclarators
      fun token h => hlines token (by rcases List.mem_cons.1 h with h | h <;> simp [h])
    have hall := leads_then hfirst (ih (StandsIn.adoptAll ⟨hready, rfl, rfl, rfl⟩ _)
      fun token h => hlines token (by simp [h]))
    simpa using hall

/-- The symbols to which all tokens of a text lead are its outline. -/
theorem extract_of_leads {text : String} {options : Options} {symbols : List Symbol}
    (h : Leads (start text options) (Token.ofText text) ((start text options).adoptAll symbols)) :
    extract text options = symbols := by
  obtain ⟨steps, hrun⟩ := h.foldl_feed 0
  rw [adoptAll_of_empty (start text options) rfl symbols] at hrun
  change ((List.foldl feed ((start text options).counting 0) (Token.ofText text)).finish
    (Token.scan text).2.position).roots.toList = symbols
  rw [hrun]
  exact Array.toList_append.trans rfl

/-! ## The laws -/

/-- A source of the grammar has the outline that the grammar gives it. -/
theorem every_source_of_the_grammar_is_recognised (text : String) (options : Options)
    {symbols : List Symbol} (h : Items text options 0 (Token.ofText text) symbols) :
    extract text options = symbols := by
  have hlines : ∀ token ∈ Token.ofText text, token.line ≤ token.range.stop.line :=
    fun token htoken => Position.line_le_of_le ((Cursor.reads_scan text).start_le_stop htoken)
  exact extract_of_leads (leads_items h ⟨ready_start text options, rfl, rfl, rfl⟩ hlines)

/-- A struct with two variables, an event with code in it, and a prototype. -/
def sampleText : String :=
  "struct S \x7b int a[2] = \x7b 1 \x7d, b; \x7d on * \x7b f(); \x7d void g();"

/-- A token of a text that has one line, and one byte for each character. -/
def sampleToken (kind : TokenKind) (text : String) (column depth : Nat) : Token :=
  let stop := column + text.utf8ByteSize
  ⟨kind, text, ⟨column, stop⟩, ⟨⟨0, column⟩, ⟨0, stop⟩⟩, depth⟩

def sampleOutline : Outline :=
  [⟨"S", some "struct", .container, ⟨⟨0, 0⟩, ⟨0, 33⟩⟩, ⟨⟨0, 7⟩, ⟨0, 8⟩⟩,
      [⟨"a", some "int", .var, ⟨⟨0, 11⟩, ⟨0, 27⟩⟩, ⟨⟨0, 15⟩, ⟨0, 16⟩⟩, []⟩,
        ⟨"b", some "int", .var, ⟨⟨0, 29⟩, ⟨0, 31⟩⟩, ⟨⟨0, 29⟩, ⟨0, 30⟩⟩, []⟩]⟩,
    ⟨"*", none, .event, ⟨⟨0, 34⟩, ⟨0, 47⟩⟩, ⟨⟨0, 37⟩, ⟨0, 38⟩⟩, []⟩,
    ⟨"g", some "void g()", .function, ⟨⟨0, 48⟩, ⟨0, 57⟩⟩, ⟨⟨0, 53⟩, ⟨0, 54⟩⟩, []⟩]

theorem the_sample_text_is_recognised :
    Items sampleText {} 0 (Token.ofText sampleText) sampleOutline ∧
      extract sampleText {} = sampleOutline := by
  have htokens : Token.ofText sampleText =
      (sampleToken (.keyword .struct) "struct" 0 0 ::
          (some (sampleToken .identifier "S" 7 0)).toList) ++
        sampleToken .openBrace "\x7b" 9 0 ::
          ((sampleToken (.keyword .type) "int" 11 1 ::
              ([] ++ sampleToken .identifier "a" 15 1 ::
                ((((sampleToken .openBracket "[" 16 1 ::
                    ([sampleToken .number "2" 17 1] ++ sampleToken .closeBracket "]" 18 1 :: [])) ++
                  sampleToken .assign "=" 20 1 :: sampleToken .openBrace "\x7b" 22 1 ::
                    ([sampleToken .number "1" 24 2] ++ sampleToken .closeBrace "\x7d" 26 1 :: [])) ++
                  sampleToken .comma "," 27 1 :: sampleToken .identifier "b" 29 1 ::
                    ([] ++ [sampleToken .semicolon ";" 30 1])) ++ []))) ++
          sampleToken .closeBrace "\x7d" 32 0 ::
            ([sampleToken (.keyword .on) "on" 34 0, sampleToken .punct "*" 37 0] ++
              sampleToken .openBrace "\x7b" 39 0 ::
                ([sampleToken .identifier "f" 41 1, sampleToken .openParen "(" 42 1,
                    sampleToken .closeParen ")" 43 1, sampleToken .semicolon ";" 44 1] ++
                  sampleToken .closeBrace "\x7d" 46 0 ::
                    ((sampleToken (.keyword .type) "void" 48 0 ::
                        ([] ++ sampleToken .identifier "g" 53 0 ::
                          sampleToken .openParen "(" 54 0 ::
                            ([] ++ [sampleToken .closeParen ")" 55 0]))) ++
                      sampleToken .semicolon ";" 56 0 :: [])))) := by
    decide +kernel
  have hbody : Body [sampleToken .identifier "f" 41 1, sampleToken .openParen "(" 42 1,
      sampleToken .closeParen ")" 43 1, sampleToken .semicolon ";" 44 1] :=
    .plain rfl (.plain rfl (.plain rfl (.plain rfl .done)))
  have htail : Tail ((sampleToken .openBracket "[" 16 1 ::
      ([sampleToken .number "2" 17 1] ++ sampleToken .closeBracket "]" 18 1 :: [])) ++
        sampleToken .assign "=" 20 1 :: sampleToken .openBrace "\x7b" 22 1 ::
          ([sampleToken .number "1" 24 2] ++ sampleToken .closeBrace "\x7d" 26 1 :: [])) :=
    .assigned (.size rfl (.plain rfl .done) .done) rfl
      (.group (by decide) (fun _ => rfl) (.plain rfl .done) .done)
  have hitems : ∃ symbols, Items sampleText {} 0 (Token.ofText sampleText) symbols ∧
      symbols = sampleOutline := by
    rw [htokens]
    refine ⟨_, .container (.aggregate (Or.inl ⟨rfl, rfl⟩) (by decide)) rfl rfl
      (.variableList ⟨⟨.type, by decide, rfl⟩, nofun, nofun⟩ rfl
        (.more htail rfl rfl (.last (.plain .done) rfl)) .done)
      (.code (.event rfl rfl rfl nofun) (by decide) rfl hbody
        (.prototype (.intro ⟨⟨.type, by decide, rfl⟩, nofun, nofun⟩ rfl rfl .done rfl) rfl
          .done)), ?_⟩
    decide +kernel
  obtain ⟨symbols, hitems, hsymbols⟩ := hitems
  rw [hsymbols] at hitems
  exact ⟨hitems, every_source_of_the_grammar_is_recognised sampleText {} hitems⟩

end CaplOutline.Outline
