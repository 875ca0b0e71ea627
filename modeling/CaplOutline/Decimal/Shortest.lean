-- The text of a double: the fewest decimal digits that are read back as the same
-- double, and of those the nearest to it.
import CaplOutline.Decimal.Binary64

namespace CaplOutline.Decimal

namespace Binary64

/-! ## The fewest digits -/

/-- The exponent of the first decimal digit of a quotient that is not 0. -/
def leadingExponent (num den : Nat) : Int :=
  if den ≤ num then (Nat.toDigits 10 (num / den)).length - 1
  else -(Nat.toDigits 10 ((den - 1) / num)).length

/-- The numbers that round to a double, in quarters of its last place: the ends, and whether they
round to it too. Below a power of two the doubles lie twice as near. -/
def interval (x : Binary64) : Nat × Nat × Bool :=
  let low :=
    if x.mantissa = Nat.pow 2 52 ∧ leastExponent < x.exponent then 4 * x.mantissa - 1
    else 4 * x.mantissa - 2
  (low, 4 * x.mantissa + 2, x.mantissa % 2 == 0)

/-- The multiple of 10 to the power `exponent` that rounds to `x`, and is the nearest to it if there
are two: the double lies between two neighbours on that grid. -/
def onGrid? (x : Binary64) (exponent : Int) : Option Nat :=
  let quarter := x.exponent - 2
  let place := Nat.pow 10 exponent.toNat * Nat.pow 2 (-quarter).toNat
  let unit := Nat.pow 2 quarter.toNat * Nat.pow 10 (-exponent).toNat
  let (low, high, ends) := x.interval
  let inside (n : Nat) : Bool :=
    (low * unit < n * place && n * place < high * unit) ||
      (ends && (n * place == low * unit || n * place == high * unit))
  let value := 4 * x.mantissa * unit
  let below := value / place
  match inside below, inside (below + 1) with
  | true, true =>
    let twice := 2 * (value % place)
    some (if twice < place || (twice == place && below % 2 == 0) then below else below + 1)
  | true, false => some below
  | false, true => some (below + 1)
  | false, false => none

/-- The number of digits from which every double is read back. -/
def enoughDigits : Nat := 17

/-- The shortest decimal of a double that is not 0: its digits, and the power of ten of the last. -/
def shortest (x : Binary64) : Nat × Int :=
  let leading := leadingExponent x.ratio.1 x.ratio.2
  let found := (List.range enoughDigits).findSome? fun (n : Nat) =>
    let exponent := leading - (n : Int)
    (x.onGrid? exponent).map (·, exponent)
  found.getD (0, 0)

/-! ## Layout -/

/-- Behind the last digit that is not 0 there is none. -/
def trimZeros (digits : List Char) : List Char := (digits.reverse.dropWhile (· == '0')).reverse

def zeros (n : Nat) : String := String.ofList (List.replicate n '0')

/-- The powers of ten of a first digit for which a number is written without an exponent. -/
def isPositional (leading : Int) : Bool := -5 ≤ leading && leading ≤ 15

/-- Digits, of which the first stands for the power `leading` of ten, with a point and at least one
digit on each side of it. -/
def positional (digits : List Char) (leading : Int) : String :=
  if leading < 0 then "0." ++ zeros (-leading - 1).toNat ++ String.ofList digits
  else
    let whole := leading.toNat + 1
    let front := String.ofList (digits.take whole) ++ zeros (whole - digits.length)
    let back := digits.drop whole
    front ++ "." ++ (if back.isEmpty then "0" else String.ofList back)

/-- One digit, the others behind a point, and the exponent with its sign. -/
def scientific (digits : List Char) (leading : Int) : String :=
  let back := digits.drop 1
  let point := if back.isEmpty then "" else "." ++ String.ofList back
  let sign := if leading < 0 then "-" else "+"
  String.ofList (digits.take 1) ++ point ++ "e" ++ sign ++ toString leading.natAbs

/-- The text of a double. It has a point or an exponent, so that it is not taken for an integer. -/
def text (negative : Bool) (x : Binary64) : String :=
  let sign := if negative then "-" else ""
  if x.mantissa = 0 then sign ++ "0.0"
  else
    let (digits, exponent) := x.shortest
    let all := Nat.toDigits 10 digits
    let leading := exponent + (all.length - 1)
    let digits := trimZeros all
    sign ++ (if isPositional leading then positional digits leading else scientific digits leading)

end Binary64

end CaplOutline.Decimal
