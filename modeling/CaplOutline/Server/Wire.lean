-- Replies as the JSON values that go over the wire.
import CaplOutline.Server.Session

namespace CaplOutline

/-! ## Symbols -/

/-- The number of a kind of symbol in the protocol. -/
def SymbolKind.code : SymbolKind → Nat
  | container => 3
  | function => 12
  | var => 13
  | event => 24

namespace Json

def ofPosition (position : Position) : Json :=
  object [("line", int position.line), ("character", int position.character)]

def ofRange (range : Range) : Json :=
  object [("start", ofPosition range.start), ("end", ofPosition range.stop)]

/-- A member that is left out if it has no value. -/
def optionalString (name : String) (value : Option String) : List (String × Json) :=
  (value.map fun text => (name, string text)).toList

mutual

/-- A symbol with all that it holds. The list of what it holds is left out if it is empty. -/
def ofSymbol : Symbol → Json
  | ⟨name, detail, kind, range, selection, children⟩ =>
    let members := [("name", string name), ("kind", int kind.code), ("range", ofRange range),
      ("selectionRange", ofRange selection)] ++ optionalString "detail" detail
    match children with
    | [] => object members
    | child :: children =>
      object (members ++ [("children", array (ofSymbols #[ofSymbol child] children))])

def ofSymbols (done : Array Json) : List Symbol → List Json
  | [] => done.toList
  | symbol :: symbols => ofSymbols (done.push (ofSymbol symbol)) symbols

end

def ofEntry (uri : String) (entry : Symbol.Entry) : Json :=
  object ([("name", string entry.name), ("kind", int entry.kind.code),
    ("location", object [("uri", string uri), ("range", ofRange entry.range)])] ++
    optionalString "containerName" entry.container)

def ofListing (uri : String) : Listing → Json
  | .nested outline => array (ofSymbols #[] outline)
  | .flat entries => array (entries.map (ofEntry uri))

/-- What the server can do. Text comes as edits (2) or as a whole (1). -/
def ofCapabilities (incremental : Bool) : Json :=
  object [
    ("capabilities", object [
      ("textDocumentSync", int (if incremental then 2 else 1)),
      ("documentSymbolProvider", bool true)]),
    ("serverInfo", object [("name", string "capl-lsp"), ("version", string "0.1.0")])]

end Json

namespace Reply

/-- The code of an error for parameters that name no open document. -/
def errorCode : Int := -32602

/-- What goes back as the answer to a call: a value, an error with its code, or nothing if the call
takes no answer. -/
def toJson? : Reply → Option (Except (Int × String) Json)
  | capabilities incremental => some (.ok (.ofCapabilities incremental))
  | done => some (.ok .null)
  | listing uri found => some (.ok (.ofListing uri found))
  | refused error => some (.error (errorCode, error.message))
  | silence | log _ => none

/-- The messages that go to the editor besides the answer, each with its method. -/
def messages : Reply → List (String × Json)
  | log message =>
    [("window/logMessage", .object [("type", .int 3), ("message", .string message)])]
  | _ => []

end Reply

end CaplOutline
