-- JSON values, as the editor sends its settings and its calls.
import CaplOutline.Decimal.Binary64

namespace CaplOutline

namespace Json

/-- A number is an integer if it is written as one and has 64 bits, with a sign or without one. All
other numbers are doubles, and so is a zero with a sign. -/
inductive Number where
  | integer (value : Int)
  | double (negative : Bool) (magnitude : Decimal.Binary64)
  deriving DecidableEq, Repr, Inhabited

end Json

inductive Json where
  | null
  | bool (value : Bool)
  | number (value : Json.Number)
  | string (value : String)
  | array (items : List Json)
  | object (members : List (String × Json))
  deriving Repr, Inhabited

namespace Json

/-! ## Numbers -/

def leastInteger : Int := -Int.pow 2 63

def greatestInteger : Int := Int.pow 2 64 - 1

/-- The number of a literal: its sign, its digits without the point, and the power of ten of the
last digit, which is missing if there is neither a point nor an exponent. There is none if the
literal is too large for a double. -/
def Number.ofLiteral? (negative : Bool) (digits : Nat) (exponent : Option Int) : Option Number :=
  let value : Int := if negative then -digits else digits
  if exponent.isNone && leastInteger ≤ value && value ≤ greatestInteger &&
      !(negative && digits == 0) then
    some (.integer value)
  else
    (Decimal.Binary64.ofDecimal? digits (exponent.getD 0)).map (.double negative)

def int (value : Int) : Json := number (.integer value)

/-! ## Plain values -/

def bool? : Json → Option Bool
  | bool value => some value
  | _ => none

def string? : Json → Option String
  | string value => some value
  | _ => none

def int? : Json → Option Int
  | number (.integer value) => some value
  | _ => none

/-- An integer that is not below zero. -/
def nat? (value : Json) : Option Nat := value.int?.bind Int.toNat?

def items? : Json → Option (List Json)
  | array items => some items
  | _ => none

/-! ## Members of objects -/

/-- The member of an object. Of two members with one name the last one counts. -/
def member? (name : String) : Json → Option Json
  | object members => (members.reverse.find? (·.1 == name)).map (·.2)
  | _ => none

/-- The member of an object, unless it is null. -/
def optional? (name : String) (value : Json) : Option Json :=
  match value.member? name with
  | some null => none
  | found => found

end Json

end CaplOutline
