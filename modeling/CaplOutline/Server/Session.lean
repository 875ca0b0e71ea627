-- A session with one editor: the documents it has open, the settings it gave, and
-- whether it can show an outline as a tree.
import CaplOutline.Settings.Read
import CaplOutline.Document.Store
import CaplOutline.Symbol.Listing

namespace CaplOutline

/-- An outline in the form that the editor can show. -/
inductive Listing where
  | nested (outline : Outline)
  | flat (entries : List Symbol.Entry)
  deriving DecidableEq, Repr, Inhabited

structure Session where
  store : Store := .empty
  /-- The editor can show an outline as a tree. -/
  hierarchical : Bool := false
  settings : Settings := {}

/-- A change of a text. Without a range the text is the new one of the whole document. -/
structure ContentChange where
  range : Option Range
  text : String
  deriving DecidableEq, Repr, Inhabited

def ContentChange.edit (change : ContentChange) : Text.Change :=
  match change.range with
  | some range => .rangeEdit range change.text
  | none => .fullText change.text

/-- Whether an editor with these capabilities can show an outline as a tree. An editor that does not
say so cannot. -/
def Json.hierarchical (capabilities : Json) : Bool :=
  let support := do
    let document ← capabilities.member? "textDocument"
    let symbols ← document.member? "documentSymbol"
    (← symbols.member? "hierarchicalDocumentSymbolSupport").bool?
  support.getD false

/-- What the editor asks for, or tells. -/
inductive Call where
  /-- The session starts, or starts anew, with the user's options if there are any, and with what
  the editor can do. -/
  | start (options : Option Json) (capabilities : Json)
  | started
  | shutdown
  | didOpen (uri text : String) (version : Int)
  | didChange (uri : String) (version : Int) (changes : List ContentChange)
  | didClose (uri : String)
  | documentSymbol (uri : String)

inductive Reply where
  /-- What the server can do, and whether it takes edits or whole texts. -/
  | capabilities (incremental : Bool)
  /-- Done, without a value. -/
  | done
  /-- Nothing is said. -/
  | silence
  /-- A line for the editor's log. -/
  | log (message : String)
  | listing (uri : String) (listing : Listing)
  | refused (error : Store.Error)
  deriving DecidableEq, Repr, Inhabited

namespace Session

/-- The outline of an open document, under the settings that are given. -/
def listing (session : Session) (uri : String) (settings : SymbolSettings) :
    Except Store.Error Listing :=
  (fun (_, outline) =>
    if session.hierarchical then .nested (outline.cut settings.maxDepth)
    else .flat (outline.flatten settings.maxDepth)) <$> session.store.symbols uri settings.options

/-- Takes over the user's options. Options that are not there, or that cannot be read, change
nothing. -/
def configure (session : Session) (options : Option Json) : Session :=
  match options.map Settings.read with
  | some (.ok settings) => { session with settings }
  | _ => session

/-- Answers one call. A document that is not open is an error only if its outline is asked for. -/
def answer (session : Session) : Call → Reply × Session
  | .start options capabilities =>
    let session := { session.configure options with hierarchical := capabilities.hierarchical }
    (.capabilities session.settings.sync.incremental, session)
  | .started => (.log "capl-lsp ready", session)
  | .shutdown => (.done, session)
  | .didOpen uri text version =>
    (.silence, { session with store := (session.store.insert uri text version).2 })
  | .didChange uri version changes =>
    match session.store.change uri version (changes.map ContentChange.edit) with
    | .ok (_, store) => (.silence, { session with store })
    | .error _ => (.silence, session)
  | .didClose uri =>
    match session.store.erase uri with
    | .ok store => (.silence, { session with store })
    | .error _ => (.silence, session)
  | .documentSymbol uri =>
    match session.listing uri session.settings.symbols with
    | .ok listing => (.listing uri listing, session)
    | .error error => (.refused error, session)

end Session

end CaplOutline
