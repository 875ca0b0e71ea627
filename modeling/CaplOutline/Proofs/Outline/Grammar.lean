-- The grammar of a source. It says which runs of tokens are declarations, how
-- declarations nest, and which symbols they stand for. It is written down without
-- the machine: no phase, no stack and no counter of brackets is in it.
import CaplOutline.Outline.Machine

namespace CaplOutline

/-! ## Tokens by what they may be part of -/

namespace TokenKind

/-- Neither a keyword nor a brace. -/
def isInert : TokenKind → Bool
  | keyword _ | openBrace | closeBrace => false
  | _ => true

/-- May stand between the name of an event and its body. -/
def isArgument : TokenKind → Bool
  | openBrace | closeBrace | semicolon => false
  | kind => !kind.opensBlock

/-- May stand between the parentheses of a function, and is no parenthesis. -/
def isParameter : TokenKind → Bool
  | openParen | closeParen | openBrace | closeBrace | semicolon | keyword .on => false
  | _ => true

/-- May stand in an array size or in a first value, and is no bracket. -/
def isValue : TokenKind → Bool
  | keyword _ | semicolon => false
  | openParen | closeParen | openBracket | closeBracket | openBrace | closeBrace => false
  | _ => true

def braces : TokenKind × TokenKind := (openBrace, closeBrace)

def parens : TokenKind × TokenKind := (openParen, closeParen)

def brackets : TokenKind × TokenKind := (openBracket, closeBracket)

def allPairs : List (TokenKind × TokenKind) := [parens, brackets, braces]

end TokenKind

/-- A word that names an event, or the star that stands for all of them. -/
def Token.isEventName (token : Token) : Bool :=
  token.kind == .identifier || token.kind == .keyword .type ||
    (token.kind == .punct && token.text == "*")

namespace Outline

/-! ## Groups in brackets -/

/-- A run of plain tokens and of groups, each between two brackets that belong together and with
such a run in it. -/
inductive Grouped (plain : TokenKind → Bool) (pairs : List (TokenKind × TokenKind)) :
    List Token → Prop
  | done : Grouped plain pairs []
  | plain {token : Token} {rest : List Token} :
      plain token.kind = true → Grouped plain pairs rest → Grouped plain pairs (token :: rest)
  | group {opening closing : Token} {inner rest : List Token} :
      (opening.kind, closing.kind) ∈ pairs →
      Grouped plain pairs inner → Grouped plain pairs rest →
      Grouped plain pairs (opening :: (inner ++ closing :: rest))

/-- What stands in the braces of a function or of an event. -/
def Body : List Token → Prop := Grouped TokenKind.isInert [TokenKind.braces]

/-- What stands in the parentheses of a function. -/
def Parameters : List Token → Prop := Grouped TokenKind.isParameter [TokenKind.parens]

/-- What stands in any bracket of a variable. -/
def Enclosed : List Token → Prop := Grouped TokenKind.isValue TokenKind.allPairs

/-! ## The first words of a declaration -/

/-- A keyword opens the declaration. More of them, and names, may follow on its line. -/
structure Words (keywords : List Keyword) (first : Token) (more : List Token) : Prop where
  opens : ∃ word ∈ keywords, first.kind = .keyword word
  goes_on : ∀ token ∈ more, token.kind = .identifier ∨ ∃ word ∈ keywords, token.kind = .keyword word
  one_line : ∀ token ∈ more, token.line = first.line

/-- A keyword opens the declaration, and any words may follow on its line, but for those that open
a block. -/
structure FirstWords (first : Token) (more : List Token) : Prop where
  opens : first.kind.opensDeclaration = true
  goes_on : ∀ token ∈ more, token.isWord = true ∧ token.kind.opensBlock = false
  one_line : ∀ token ∈ more, token.line = first.line

/-! ## Declarations with a body -/

/-- The text of the arguments of an event. -/
def argumentsOf (source : String) : List Token → Option String
  | [] => none
  | first :: rest =>
    some (detailOf (Text.slice source first.span.start (rest.getLastD first).span.stop))

/-- The words, the name and the parameters of a function. -/
inductive FunctionHead (source : String) : List Token → Draft → Prop
  | intro {first name opening closing : Token} {more parameters : List Token} :
      Words [.type, .functionMarker] first more → name.kind = .identifier →
      opening.kind = .openParen → Parameters parameters → closing.kind = .closeParen →
      FunctionHead source (first :: (more ++ name :: opening :: (parameters ++ [closing])))
        { name := name.text
          detail := some (detailOf (Text.slice source first.span.start closing.span.stop))
          kind := .function
          start := first.range.start
          selection := name.range
          children := #[] }

/-- All that stands before the opening brace of a symbol, and what is known of the symbol there. -/
inductive Head (source : String) : List Token → Draft → Prop
  | function {tokens : List Token} {draft : Draft} :
      FunctionHead source tokens draft → Head source tokens draft
  | event {opening name : Token} {arguments : List Token} :
      opening.kind = .keyword .on → name.isEventName = true → name.line = opening.line →
      (∀ token ∈ arguments, token.kind.isArgument = true ∧ token.line = opening.line) →
      Head source (opening :: name :: arguments)
        { name := name.text
          detail := (argumentsOf source arguments).filter (· ≠ "")
          kind := .event
          start := opening.range.start
          selection := name.range
          children := #[] }
  | block {word : Token} :
      word.kind = .keyword .variableBlock ∨ word.kind = .keyword .includeBlock →
      Head source [word]
        { name := word.text
          detail := none
          kind := .container
          start := word.range.start
          selection := word.range
          children := #[] }
  | aggregate {word : Token} {name : Option Token} {detail : String} :
      word.kind = .keyword .struct ∧ detail = "struct" ∨
        word.kind = .keyword .enum ∧ detail = "enum" →
      (∀ token ∈ name, token.kind = .identifier) →
      Head source (word :: name.toList)
        { name := (name.map (·.text)).getD unnamed
          detail := some detail
          kind := .container
          start := word.range.start
          selection := (name.getD word).range
          children := #[] }

/-- The symbols of a declaration with a body. As many symbols may be nested as the limit says: below
it only the symbols in the body are left, and they belong to what is around the declaration. -/
def symbolsOf (options : Options) (level : Nat) (draft : Draft) (stop : Position)
    (children : List Symbol) : List Symbol :=
  if level < maxNesting then [{ draft.finish options.includeDetails stop with children }]
  else children

/-! ## Variables -/

/-- The sizes of an array, each in its own brackets. -/
inductive Sizes : List Token → Prop
  | done : Sizes []
  | size {opening closing : Token} {inner rest : List Token} :
      (opening.kind, closing.kind) = TokenKind.brackets → Enclosed inner → Sizes rest →
      Sizes (opening :: (inner ++ closing :: rest))

/-- A first value. No comma stands outside its brackets, and no brace opens right behind an
outermost group in parentheses: `afterGroup` says that such a group was just closed. -/
inductive Value : (afterGroup : Bool) → List Token → Prop
  | done {afterGroup : Bool} : Value afterGroup []
  | plain {afterGroup : Bool} {token : Token} {rest : List Token} :
      token.kind.isValue = true → token.kind ≠ .comma → Value false rest →
      Value afterGroup (token :: rest)
  | group {afterGroup : Bool} {opening closing : Token} {inner rest : List Token} :
      (opening.kind, closing.kind) ∈ TokenKind.allPairs →
      (opening.kind = .openBrace → afterGroup = false) →
      Enclosed inner → Value (closing.kind == .closeParen) rest →
      Value afterGroup (opening :: (inner ++ closing :: rest))

/-- What follows the name of a variable: its array sizes, and its first value behind an equals
sign. -/
inductive Tail : List Token → Prop
  | plain {sizes : List Token} : Sizes sizes → Tail sizes
  | assigned {sizes value : List Token} {assign : Token} :
      Sizes sizes → assign.kind = .assign → Value false value → Tail (sizes ++ assign :: value)

/-- A variable from `start` to `stop`, with the words of its type as detail. -/
def variableOf (options : Options) (typeText : String) (start : Position) (name : Token)
    (stop : Position) : Symbol :=
  { name := name.text
    detail := if options.includeDetails then some typeText else none
    kind := .var
    range := ⟨start, stop⟩
    selection := name.range
    children := [] }

/-- What follows the name of the variable that begins at `start`, with all variables behind it, up
to the semicolon. -/
inductive Declarators (options : Options) (typeText : String) :
    (start : Position) → (name : Token) → List Token → List Symbol → Prop
  | last {start : Position} {name semicolon : Token} {tail : List Token} :
      Tail tail → semicolon.kind = .semicolon →
      Declarators options typeText start name (tail ++ [semicolon])
        [variableOf options typeText start name semicolon.range.stop]
  | more {start : Position} {name comma next : Token} {tail rest : List Token}
      {symbols : List Symbol} :
      Tail tail → comma.kind = .comma → next.kind = .identifier →
      Declarators options typeText next.range.start next rest symbols →
      Declarators options typeText start name (tail ++ comma :: next :: rest)
        (variableOf options typeText start name (tail.getLastD name).range.stop :: symbols)

/-! ## Sources -/

/-- A list of declarations below `level` open symbols, with inert tokens between them, and the
symbols that it stands for. -/
inductive Items (source : String) (options : Options) :
    (level : Nat) → List Token → List Symbol → Prop
  | done {level : Nat} : Items source options level [] []
  | inert {level : Nat} {token : Token} {rest : List Token} {symbols : List Symbol} :
      token.kind.isInert = true → Items source options level rest symbols →
      Items source options level (token :: rest) symbols
  /-- A function or an event, with code in its body. -/
  | code {level : Nat} {head body rest : List Token} {opening closing : Token} {draft : Draft}
      {symbols : List Symbol} :
      Head source head draft → draft.kind ≠ .container →
      (opening.kind, closing.kind) = TokenKind.braces → Body body →
      Items source options level rest symbols →
      Items source options level (head ++ opening :: (body ++ closing :: rest))
        (symbolsOf options level draft closing.range.stop [] ++ symbols)
  /-- A block, a struct or an enum, with declarations in its body. -/
  | container {level : Nat} {head inner rest : List Token} {opening closing : Token} {draft : Draft}
      {children symbols : List Symbol} :
      Head source head draft → draft.kind = .container →
      (opening.kind, closing.kind) = TokenKind.braces →
      Items source options (if level < maxNesting then level + 1 else level) inner children →
      Items source options level rest symbols →
      Items source options level (head ++ opening :: (inner ++ closing :: rest))
        (symbolsOf options level draft closing.range.stop children ++ symbols)
  | prototype {level : Nat} {head rest : List Token} {semicolon : Token} {draft : Draft}
      {symbols : List Symbol} :
      FunctionHead source head draft → semicolon.kind = .semicolon →
      Items source options level rest symbols →
      Items source options level (head ++ semicolon :: rest)
        (draft.finish options.includeDetails semicolon.range.stop :: symbols)
  | variableList {level : Nat} {first name : Token} {more tokens rest : List Token}
      {symbols symbols' : List Symbol} :
      Words [.type] first more → name.kind = .identifier →
      Declarators options (detailOf (Text.slice source first.span.start name.span.start))
        first.range.start name tokens symbols →
      Items source options level rest symbols' →
      Items source options level (first :: (more ++ name :: (tokens ++ rest)))
        (symbols ++ symbols')

end Outline

end CaplOutline
