-- What is known of a declaration while its header is read. A header begins with
-- a keyword and goes on until its body, its semicolon, or a token that shows that
-- the rest of it is missing.
import CaplOutline.Symbol
import CaplOutline.Token
import CaplOutline.Outline.Detail

namespace CaplOutline.Outline

/-! ## Symbols that are not finished -/

/-- Which part of a source a region in braces is. Variables are reported at the top level and in
blocks; in code they are locals. -/
inductive Scope where
  | topLevel
  /-- The body of a container. -/
  | block
  /-- The body of a function or of an event handler, and braces that belong to no symbol. -/
  | code
  deriving DecidableEq, Repr, Inhabited

/-- A symbol of which the end is not known yet. -/
structure Draft where
  name : String
  detail : Option String
  kind : SymbolKind
  start : Position
  selection : Range
  children : Array Symbol
  deriving Inhabited

/-- The name of a symbol whose declaration gives none. -/
def unnamed : String := "<unnamed>"

namespace Draft

/-- A symbol whose declaration starts with the token `first`. Without a name it is selected by that
token. -/
def ofTokens (kind : SymbolKind) (first : Token) (name : Option Token) : Draft :=
  { name := (name.map (·.text)).getD unnamed
    detail := none
    kind
    start := first.range.start
    selection := (name.getD first).range
    children := #[] }

def bodyScope (draft : Draft) : Scope := if draft.kind = .container then .block else .code

/-- The symbol, now that its end is known. -/
def finish (draft : Draft) (includeDetail : Bool) (stop : Position) : Symbol :=
  { name := draft.name
    detail := if includeDetail then draft.detail else none
    kind := draft.kind
    range := ⟨draft.start, stop⟩
    selection := draft.selection
    children := draft.children.toList }

def adopt (draft : Draft) (child : Symbol) : Draft :=
  { draft with children := draft.children.push child }

end Draft

/-! ## The header of an event handler -/

structure EventHeader where
  /-- The word `on`. -/
  first : Token
  name : Option Token
  /-- The byte at which the arguments start: all that follows the name on its line. -/
  arguments : Option Nat
  last : Token

namespace EventHeader

def ofToken (first : Token) : EventHeader := ⟨first, none, none, first⟩

/-- The first token is the name if it is a word or a star. -/
def add (header : EventHeader) (token : Token) : EventHeader :=
  if header.name.isNone && header.arguments.isNone && (token.isWord || token.text == "*") then
    { header with name := some token, last := token }
  else
    { header with arguments := header.arguments.or (some token.span.start), last := token }

def draft (source : String) (header : EventHeader) : Draft :=
  let detail := header.arguments.map fun start =>
    detailOf (Text.slice source start header.last.span.stop)
  { Draft.ofTokens .event header.first header.name with detail := detail.filter (· ≠ "") }

end EventHeader

/-! ## The first words of a function or a variable -/

structure DeclarationHeader where
  first : Token
  words : Nat
  /-- The last word, if there is more than one. -/
  name : Option Token
  last : Token

namespace DeclarationHeader

def ofToken (first : Token) : DeclarationHeader := ⟨first, 1, none, first⟩

/-- The header of something that can only be a function. -/
def isFunction (header : DeclarationHeader) : Bool := header.first.kind == .keyword .functionMarker

/-- The word of a struct or an enum. -/
def aggregate? (header : DeclarationHeader) : Option String :=
  match header.first.kind with
  | .keyword .struct => some "struct"
  | .keyword .enum => some "enum"
  | _ => none

/-- A type and a name have been read, so this may be a variable. -/
def hasDeclarator (header : DeclarationHeader) : Bool := 2 ≤ header.words && !header.isFunction

/-- A variable ends its first words here. At the keyword of the next declaration it does so only on
a new line, since more than one keyword may name a type. -/
def endsAt (header : DeclarationHeader) (token : Token) : Bool :=
  match token.kind with
  | .assign | .semicolon | .openBracket | .comma | .closeBrace => true
  | kind => kind.opensBlock || (kind.opensDeclaration && header.last.range.stop.line < token.line)

/-- Numbers, points, double colons and stars may stand between the words of a type. -/
def isConnector (token : Token) : Bool :=
  token.kind == .number || (token.kind == .punct && [".", "::", "*"].contains token.text)

def addWord (header : DeclarationHeader) (token : Token) : DeclarationHeader :=
  { header with words := header.words + 1, name := some token, last := token }

end DeclarationHeader

/-! ## The parameters of a function -/

structure ParameterList where
  draft : Draft
  /-- The first token of the declaration. -/
  first : Token
  /-- The number of open parentheses. -/
  parens : Nat
  last : Token

namespace ParameterList

/-- The function, with its signature up to the byte `stop` as detail. -/
def signed (list : ParameterList) (source : String) (stop : Nat) : Draft :=
  { list.draft with detail := some (detailOf (Text.slice source list.first.span.start stop)) }

end ParameterList

/-! ## The declarators of a variable -/

/-- The variables of one declaration: names with array sizes and first values, between commas. -/
structure DeclaratorList where
  /-- The variable that is being read. -/
  current : Option Draft
  typeText : Option String
  /-- Whether the variables are reported. -/
  emit : Bool
  /-- The number of open parentheses and brackets. -/
  parens : Nat
  braces : Nat
  /-- The last token closed a group in parentheses that stands by itself. -/
  afterGroup : Bool
  last : Token

namespace DeclaratorList

/-- No parenthesis, bracket or brace is open. -/
def isTop (list : DeclaratorList) : Bool := list.parens == 0 && list.braces == 0

/-- The declaration ends before this token, and its semicolon is missing. -/
def endsBefore (list : DeclaratorList) (token : Token) : Bool :=
  match token.kind with
  | .closeBrace => list.braces == 0
  | .openBrace => list.isTop && list.afterGroup
  | kind =>
    kind.opensBlock ||
      (kind.opensDeclaration && list.isTop && list.last.range.stop.line < token.line)

/-- Counts the brackets of a token that belongs to the declaration. -/
def add (list : DeclaratorList) (token : Token) : DeclaratorList :=
  let parens :=
    match token.kind with
    | .openParen | .openBracket => list.parens + 1
    | .closeParen | .closeBracket => list.parens - 1
    | _ => list.parens
  let braces :=
    match token.kind with
    | .openBrace => list.braces + 1
    | .closeBrace => list.braces - 1
    | _ => list.braces
  let afterGroup := token.kind == .closeParen && parens == 0 && braces == 0
  { list with parens, braces, afterGroup, last := token }

end DeclaratorList

/-! ## Headers -/

inductive Header where
  | event (header : EventHeader)
  | declaration (header : DeclarationHeader)
  | parameters (list : ParameterList)
  /-- Complete but for its body, or its semicolon. -/
  | awaitBody (draft : Draft) (last : Token)
  | declarators (list : DeclaratorList)

end CaplOutline.Outline
