-- One step of the machine: what it does with one token. Either the token is used
-- up, or the header ends before it and the token has to be handled again.
import CaplOutline.Outline.Machine

namespace CaplOutline.Outline

inductive Step where
  /-- The token is used up. -/
  | consumed (machine : Machine)
  /-- The token has to be handled again. -/
  | retry (machine : Machine)

namespace Machine

/-! ## Outside headers -/

/-- A keyword opens a header and a brace opens or closes a frame. All else is passed over. -/
def scan (machine : Machine) (token : Token) : Machine :=
  match token.kind with
  | .keyword .on => machine.readHeader (.event (.ofToken token))
  | .keyword .variableBlock | .keyword .includeBlock =>
    machine.readHeader (.awaitBody (.ofTokens .container token token) token)
  | .keyword _ => machine.readHeader (.declaration (.ofToken token))
  | .openBrace => machine.push none (if machine.scope = .topLevel then .code else machine.scope)
  | .closeBrace => machine.pop token.range.stop
  | _ => machine.settle

/-! ## In a header -/

/-- An event header ends with its body or a semicolon, and otherwise with its line. -/
def stepEvent (machine : Machine) (header : EventHeader) (token : Token) : Step :=
  if token.kind == .openBrace then .consumed (machine.push (header.draft machine.source) .code)
  else if token.kind == .semicolon then
    .consumed (machine.close (header.draft machine.source) token.range.stop)
  else if token.kind == .closeBrace || token.kind.opensBlock || token.line != header.first.line then
    .retry (machine.close (header.draft machine.source) header.last.range.stop)
  else .consumed (machine.readHeader (.event (header.add token)))

/-- The first words of a declaration end in the declarators of a variable, in the parameters of a
function, in the body of a struct or an enum, or in nothing at all. -/
def stepDeclaration (machine : Machine) (header : DeclarationHeader) (token : Token) : Step :=
  if header.hasDeclarator && header.endsAt token then .retry (machine.readDeclarators header)
  else if token.kind.opensBlock then .retry machine.settle
  else if token.isWord then .consumed (machine.readHeader (.declaration (header.addWord token)))
  else if DeclarationHeader.isConnector token then
    .consumed (machine.readHeader (.declaration { header with last := token }))
  else if token.kind == .openParen && 2 ≤ header.words then
    let draft := Draft.ofTokens .function header.first header.name
    .consumed (machine.readHeader (.parameters ⟨draft, header.first, 1, token⟩))
  else if token.kind == .openBrace && header.aggregate?.isSome then
    let draft := Draft.ofTokens .container header.first header.name
    .consumed (machine.push (some { draft with detail := header.aggregate? }) .block)
  else .retry machine.settle

/-- Parameters end with the parenthesis that closes them. A brace, a semicolon or an event handler
shows that it is missing. -/
def stepParameters (machine : Machine) (list : ParameterList) (token : Token) : Step :=
  match token.kind with
  | .openParen =>
    .consumed
      (machine.readHeader (.parameters { list with parens := list.parens + 1, last := token }))
  | .closeParen =>
    if list.parens ≤ 1 then
      let draft := list.signed machine.source token.span.stop
      .consumed (machine.readHeader (.awaitBody draft token))
    else
      .consumed
        (machine.readHeader (.parameters { list with parens := list.parens - 1, last := token }))
  | .openBrace | .closeBrace | .semicolon | .keyword .on =>
    let draft := list.signed machine.source list.last.span.stop
    .retry (machine.readHeader (.awaitBody draft list.last))
  | _ => .consumed (machine.readHeader (.parameters { list with last := token }))

/-- A complete header takes a body or a semicolon. Before all else the symbol ends without one. -/
def stepAwaitBody (machine : Machine) (draft : Draft) (last : Token) (token : Token) : Step :=
  match token.kind with
  | .openBrace => .consumed (machine.push draft draft.bodyScope)
  | .semicolon => .consumed (machine.close draft token.range.stop)
  | _ => .retry (machine.close draft last.range.stop)

/-- A variable ends at a comma, at the semicolon, or where the semicolon is missing. -/
def stepDeclarators (machine : Machine) (list : DeclaratorList) (token : Token) : Step :=
  if token.kind == .semicolon then .consumed (machine.report list token.range.stop).settle
  else if list.endsBefore token then .retry (machine.report list list.last.range.stop).settle
  else if token.kind == .comma && list.isTop then
    let machine := machine.report list list.last.range.stop
    .consumed (machine.readHeader (.declarators ({ list with current := none }.add token)))
  else if list.isTop && list.current.isNone && token.isWord then
    let draft := Draft.ofTokens .var token (some token)
    .consumed (machine.readHeader (.declarators ({ list with current := some draft }.add token)))
  else .consumed (machine.readHeader (.declarators (list.add token)))

/-! ## All together -/

def handle (machine : Machine) (token : Token) : Step :=
  match machine.phase with
  | .topLevel | .inBody => .consumed (machine.scan token)
  | .inHeader (.event header) => machine.stepEvent header token
  | .inHeader (.declaration header) => machine.stepDeclaration header token
  | .inHeader (.parameters list) => machine.stepParameters list token
  | .inHeader (.awaitBody draft last) => machine.stepAwaitBody draft last token
  | .inHeader (.declarators list) => machine.stepDeclarators list token

/-- Every handling of a token is counted. -/
def step (machine : Machine) (token : Token) : Step :=
  { machine with steps := machine.steps + 1 }.handle token

/-! ## At the end of the text -/

/-- Goes on outside of all headers and bodies, whatever is still open. -/
def leave (machine : Machine) : Machine := { machine with phase := .topLevel }

/-- Closes a header that the end of the text cuts off. -/
def finishHeader (machine : Machine) (header : Header) : Machine :=
  match header with
  | .event header => machine.attach (header.draft machine.source) header.last.range.stop
  | .declaration header =>
    if header.words < 2 then machine
    else if header.isFunction then
      machine.attach (.ofTokens .function header.first header.name) header.last.range.stop
    else if machine.reportsVariables then
      machine.attach (.ofTokens .var header.first header.name) header.last.range.stop
    else machine
  | .parameters list =>
    machine.attach (list.signed machine.source list.last.span.stop) list.last.range.stop
  | .awaitBody draft last => machine.attach draft last.range.stop
  | .declarators list => machine.report list list.last.range.stop

/-- Leaves the header, if the machine is in one, and closes it. -/
def endHeader (machine : Machine) : Machine :=
  match machine.phase with
  | .inHeader header => machine.leave.finishHeader header
  | _ => machine.leave

end Machine

end CaplOutline.Outline
