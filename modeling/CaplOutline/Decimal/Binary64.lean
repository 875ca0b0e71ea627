-- The numbers that a double can hold, without their sign. All arithmetic is done
-- on whole numbers, and rounds to the nearest double, with ties to an even mantissa.

namespace CaplOutline.Decimal

/-- The number `mantissa` times 2 to the power `exponent`. The mantissa has 53 bits, or fewer if the
exponent is the least one. -/
structure Binary64 where
  mantissa : Nat
  exponent : Int
  deriving DecidableEq, Repr, Inhabited

namespace Binary64

def leastExponent : Int := -1074

def zero : Binary64 := ⟨0, leastExponent⟩

/-! ## Rounding -/

/-- A quotient rounded to the nearest whole number, and to an even one if two are as near. -/
def roundDiv (num den : Nat) : Nat :=
  let quotient := num / den
  let twice := 2 * (num % den)
  if twice < den || (twice == den && quotient % 2 == 0) then quotient else quotient + 1

/-- The double that is nearest to a quotient of whole numbers. -/
def ofRatio (num den : Nat) : Binary64 :=
  if num = 0 then zero
  else
    let scaled (exponent : Int) : Nat × Nat :=
      (num * Nat.pow 2 (-exponent).toNat, den * Nat.pow 2 exponent.toNat)
    let low : Int := num.log2 - den.log2 - 53
    let (n, d) := scaled low
    let exponent := max (if Nat.pow 2 53 ≤ n / d then low + 1 else low) leastExponent
    let (n, d) := scaled exponent
    let mantissa := roundDiv n d
    if mantissa = Nat.pow 2 53 then ⟨Nat.pow 2 52, exponent + 1⟩ else ⟨mantissa, exponent⟩

/-- A double as a quotient of whole numbers. -/
def ratio (x : Binary64) : Nat × Nat :=
  (x.mantissa * Nat.pow 2 x.exponent.toNat, Nat.pow 2 (-x.exponent).toNat)

def mul (x y : Binary64) : Binary64 := ofRatio (x.ratio.1 * y.ratio.1) (x.ratio.2 * y.ratio.2)

def div (x y : Binary64) : Binary64 := ofRatio (x.ratio.1 * y.ratio.2) (x.ratio.2 * y.ratio.1)

/-- Too large for a double. -/
def overflows (x : Binary64) : Bool := 971 < x.exponent

/-! ## Reading decimals -/

/-- The largest power of ten that a double comes near to. -/
def maxPower : Nat := 308

/-- The double nearest to a power of ten. -/
def powerOfTen (n : Nat) : Binary64 := ofRatio (Nat.pow 10 n) 1

/-- Divides by a power of ten, in steps that a double can hold. -/
def divPower (x : Binary64) (n : Nat) : Binary64 :=
  if n ≤ maxPower then x.div (powerOfTen n)
  else if x.mantissa = 0 then x
  else (x.div (powerOfTen maxPower)).divPower (n - maxPower)
termination_by n
decreasing_by simp only [maxPower] at *; omega

/-- The leading digits of a number that fit into 64 bits, and how many digits are left out. -/
def leadingDigits (digits left : Nat) : Nat × Nat :=
  if digits < Nat.pow 2 64 then (digits, left) else leadingDigits (digits / 10) (left + 1)
termination_by digits
decreasing_by rw [Nat.pow_eq] at *; omega

/-- The double of the decimal `digits` times 10 to the power `exponent`, if it is not too large. The
leading digits become a double first, and this is then multiplied or divided by a power of ten. So
a decimal with many digits is rounded twice. -/
def ofDecimal? (digits : Nat) (exponent : Int) : Option Binary64 :=
  let (leading, left) := leadingDigits digits 0
  let x := ofRatio leading 1
  let exponent := exponent + left
  if exponent < 0 then some (x.divPower (-exponent).toNat)
  else if x.mantissa = 0 then some x
  else if maxPower < exponent then none
  else
    let product := x.mul (powerOfTen exponent.toNat)
    if product.overflows then none else some product

end Binary64

end CaplOutline.Decimal
