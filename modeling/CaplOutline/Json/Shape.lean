-- Shapes: what a JSON value has to look like to be taken as a parameter of a call.
import CaplOutline.Json
import CaplOutline.Uri

namespace CaplOutline

/-- What a value has to look like. -/
inductive Shape where
  | any
  | bool
  | string
  | uri
  /-- An integer from `least` up to, and with, `most`. -/
  | integer (least most : Int)
  | word (words : List String)
  /-- Null, or a value of this shape. -/
  | optional (shape : Shape)
  | either (first second : Shape)
  | list (item : Shape)
  /-- An object with these members. Others that it has are passed over. -/
  | object (members : List (String × Shape))
  /-- An object with these members, or an array with one item for each. -/
  | record (members : List (String × Shape))
  deriving Inhabited

namespace Shape

/-- Integers of 32 bits with a sign. -/
def signed : Shape := integer (-Int.pow 2 31) (Int.pow 2 31 - 1)

/-- Integers of 32 bits without a sign. -/
def unsigned : Shape := integer 0 (Int.pow 2 32 - 1)

/-- A word stands as a string, or as the only name of an object that holds null. -/
def isWord (words : List String) : Json → Bool
  | .string value => words.contains value
  | .object [(name, .null)] => words.contains name
  | _ => false

/-- The values of the members, in their order. A member that an object lacks is null. -/
def valuesByName (members : List (String × Shape)) (value : Json) : List Json :=
  members.map fun (name, _) => (value.member? name).getD .null

mutual

/-- The value with all its records as objects, which hold just the members of their shapes. There is
none if the value does not have the shape. -/
def read? : Shape → Json → Option Json
  | any, value => some value
  | bool, .bool flag => some (.bool flag)
  | string, .string text => some (.string text)
  | uri, .string text => if Uri.isValid text then some (.string text) else none
  | integer least most, .number (.integer n) =>
    if least ≤ n && n ≤ most then some (.int n) else none
  | word words, value => if isWord words value then some value else none
  | optional _, .null => some .null
  | optional shape, value => shape.read? value
  | either first second, value => (first.read? value).or (second.read? value)
  | list item, .array items => (items.mapM fun value => item.read? value).map .array
  | object members, .object given =>
    (readMembers? members (valuesByName members (.object given))).map .object
  | record members, .object given =>
    (readMembers? members (valuesByName members (.object given))).map .object
  | record members, .array items => (readMembers? members items).map .object
  | _, _ => none

/-- Reads one value for each member. -/
def readMembers? : List (String × Shape) → List Json → Option (List (String × Json))
  | [], [] => some []
  | (name, shape) :: members, value :: values => do
    let read ← shape.read? value
    return (name, read) :: (← readMembers? members values)
  | _, _ => none

end

end Shape

end CaplOutline
