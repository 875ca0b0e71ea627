-- Reads settings from a JSON value. An object gives them by name and an array by
-- place. What is not given has its default, and what is not known is passed over.
import CaplOutline.Json
import CaplOutline.Settings
import CaplOutline.Decimal.Shortest
import CaplOutline.Text.Quoted

namespace CaplOutline

namespace Settings

/-! ## Errors -/

/-- What a value was read as. -/
inductive Wanted where
  | settings
  | symbols
  | sync
  | boolean
  | count
  deriving DecidableEq, Repr, Inhabited

/-- Why a value is not accepted. -/
inductive Error where
  | wrongType (found : Json) (wanted : Wanted)
  /-- A number below zero where a count is wanted. -/
  | negative (value : Int)
  /-- An array with more items than there are settings. -/
  | tooLong (length : Nat)
  deriving Repr, Inhabited

def Wanted.name : Wanted → String
  | settings => "struct CaplConfig"
  | symbols => "struct SymbolsConfig"
  | sync => "struct SyncConfig"
  | boolean => "a boolean"
  | count => "usize"

/-- A value as an error message names it. -/
def describe : Json → String
  | .null => "null"
  | .bool value => "boolean `" ++ (if value then "true" else "false") ++ "`"
  | .number (.integer value) => "integer `" ++ toString value ++ "`"
  | .number (.double negative magnitude) => "floating point `" ++ magnitude.text negative ++ "`"
  | .string value => "string " ++ Text.quoted value
  | .array _ => "sequence"
  | .object _ => "map"

def Error.message : Error → String
  | wrongType found wanted => "invalid type: " ++ describe found ++ ", expected " ++ wanted.name
  | negative value => "invalid value: integer `" ++ toString value ++ "`, expected " ++
      Wanted.count.name
  | tooLong length => "invalid length " ++ toString length ++ ", expected fewer elements in array"

/-! ## Single values -/

def readBool : Json → Except Error Bool
  | .bool value => .ok value
  | found => .error (.wrongType found .boolean)

def readCount : Json → Except Error Nat
  | .number (.integer value) =>
    if value < 0 then .error (.negative value) else .ok value.toNat
  | found => .error (.wrongType found .count)

/-- Reads a value that may be missing. -/
def readOr {α : Type} (default : α) (read : Json → Except Error α) : Option Json → Except Error α
  | none => .ok default
  | some value => read value

/-! ## Groups of settings -/

/-- The items of an array are read before they are counted. -/
def checkLength (items : List Json) (most : Nat) : Except Error Unit :=
  if most < items.length then .error (.tooLong items.length) else .ok ()

def readDepth (value : Json) : Except Error Nat := SymbolSettings.clampDepth <$> readCount value

/-- The members of an object are read in the order of their names. -/
def readSymbols (value : Json) : Except Error SymbolSettings :=
  let default : SymbolSettings := {}
  match value with
  | .object _ => do
    let includeDetails ← readOr default.includeDetails readBool (value.member? "include_details")
    let includeLocals ← readOr default.includeLocals readBool (value.member? "include_locals")
    let maxDepth ← readOr default.maxDepth readDepth (value.member? "max_depth")
    return { includeLocals, includeDetails, maxDepth }
  | .array items => do
    let includeLocals ← readOr default.includeLocals readBool items[0]?
    let includeDetails ← readOr default.includeDetails readBool items[1]?
    let maxDepth ← readOr default.maxDepth readDepth items[2]?
    checkLength items 3
    return { includeLocals, includeDetails, maxDepth }
  | found => .error (.wrongType found .symbols)

def readSync (value : Json) : Except Error SyncSettings :=
  let default : SyncSettings := {}
  match value with
  | .object _ => do
    let incremental ← readOr default.incremental readBool (value.member? "incremental")
    return { incremental }
  | .array items => do
    let incremental ← readOr default.incremental readBool items[0]?
    checkLength items 1
    return { incremental }
  | found => .error (.wrongType found .sync)

def read (value : Json) : Except Error Settings :=
  let default : Settings := {}
  match value with
  | .object _ => do
    let symbols ← readOr default.symbols readSymbols (value.member? "symbols")
    let sync ← readOr default.sync readSync (value.member? "sync")
    return { symbols, sync }
  | .array items => do
    let symbols ← readOr default.symbols readSymbols items[0]?
    let sync ← readOr default.sync readSync items[1]?
    checkLength items 2
    return { symbols, sync }
  | found => .error (.wrongType found .settings)

end Settings

end CaplOutline
