-- The parameters of calls. A call is taken only if its parameters have their shape;
-- then what the server needs is read from them.
import CaplOutline.Server.Capabilities
import CaplOutline.Server.Session

namespace CaplOutline

/-! ## Shapes -/

namespace Params

open Shape Capability

/-- What names a task whose progress is reported. -/
def token : Shape := either signed string

def folder : Shape := record [("uri", uri), ("name", string)]

def client : Shape := record [("name", string), maybe "version" string]

def initialization : Shape := object [
  maybe "processId" unsigned,
  maybe "rootPath" string,
  maybe "rootUri" uri,
  maybe "initializationOptions" any,
  ("capabilities", editor),
  maybe "trace" (word ["off", "messages", "verbose"]),
  maybe "workspaceFolders" (list folder),
  maybe "clientInfo" client,
  maybe "locale" string,
  maybe "workDoneToken" token]

def position : Shape := record [("line", unsigned), ("character", unsigned)]

def range : Shape := record [("start", position), ("end", position)]

/-- A document with its text. -/
def openedDocument : Shape :=
  record [("uri", uri), ("languageId", string), ("version", signed), ("text", string)]

def versionedDocument : Shape := record [("uri", uri), ("version", signed)]

def document : Shape := record [("uri", uri)]

def change : Shape := record [
  maybe "range" range,
  maybe "rangeLength" unsigned,
  ("text", string)]

def opening : Shape := record [("textDocument", openedDocument)]

def changing : Shape :=
  record [("textDocument", versionedDocument), ("contentChanges", list change)]

def closing : Shape := record [("textDocument", document)]

def symbols : Shape := object [
  ("textDocument", document),
  maybe "workDoneToken" token,
  maybe "partialResultToken" token]

end Params

/-! ## Values -/

namespace Json

def position? (value : Json) : Option Position := do
  let line ← (← value.member? "line").nat?
  let character ← (← value.member? "character").nat?
  return ⟨line, character⟩

def range? (value : Json) : Option Range := do
  let start ← (← value.member? "start").position?
  let stop ← (← value.member? "end").position?
  return ⟨start, stop⟩

def change? (value : Json) : Option ContentChange := do
  let text ← (← value.member? "text").string?
  match value.optional? "range" with
  | none => return ⟨none, text⟩
  | some range => return ⟨some (← range.range?), text⟩

end Json

/-! ## Calls -/

namespace Call

def initialization? (params : Json) : Option Call := do
  let params ← Params.initialization.read? params
  let capabilities ← params.member? "capabilities"
  return .start (params.optional? "initializationOptions") capabilities

def opening? (params : Json) : Option Call := do
  let document ← (← Params.opening.read? params).member? "textDocument"
  let uri ← (← document.member? "uri").string?
  let text ← (← document.member? "text").string?
  let version ← (← document.member? "version").int?
  return .didOpen uri text version

def changing? (params : Json) : Option Call := do
  let params ← Params.changing.read? params
  let document ← params.member? "textDocument"
  let uri ← (← document.member? "uri").string?
  let version ← (← document.member? "version").int?
  let changes ← (← (← params.member? "contentChanges").items?).mapM Json.change?
  return .didChange uri version changes

def closing? (params : Json) : Option Call := do
  let document ← (← Params.closing.read? params).member? "textDocument"
  return .didClose (← (← document.member? "uri").string?)

def symbols? (params : Json) : Option Call := do
  let document ← (← Params.symbols.read? params).member? "textDocument"
  return .documentSymbol (← (← document.member? "uri").string?)

/-- The call of a method, or nothing if the parameters do not fit it. -/
def ofJson? (method : String) (params : Option Json) : Option Call :=
  match method with
  | "initialized" => some .started
  | "shutdown" => some .shutdown
  | "initialize" => params.bind initialization?
  | "textDocument/didOpen" => params.bind opening?
  | "textDocument/didChange" => params.bind changing?
  | "textDocument/didClose" => params.bind closing?
  | "textDocument/documentSymbol" => params.bind symbols?
  | _ => none

end Call

/-! ## Messages -/

/-- A message of the editor, as it comes over the wire. -/
structure Message where
  method : String
  params : Option Json

/-- What the message says, if it can be understood. -/
def Message.call? (message : Message) : Option Call := Call.ofJson? message.method message.params

/-- Replies to a message. Nothing is done with one that cannot be understood. -/
def Session.receive (session : Session) (message : Message) : Option Reply × Session :=
  match message.call? with
  | some call =>
    let (reply, session) := session.answer call
    (some reply, session)
  | none => (none, session)

end CaplOutline
