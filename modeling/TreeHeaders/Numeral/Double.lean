set_option autoImplicit false

/-!
# Double precision numbers

Finite, non-negative numbers of 53 significant bits in exact arithmetic: a mantissa
times a power of two. A ratio of natural numbers is rounded to the nearest one, a tie
going to the even mantissa.
-/

namespace TreeHeaders.Numeral

/-- The number `mantissa * 2 ^ exponent`. -/
structure Double where
  mantissa : Nat
  exponent : Int
  deriving DecidableEq, Repr, Inhabited

namespace Double

/-- How many bits a mantissa has. -/
def precision : Nat := 53

/-- The exponent of the smallest numbers. -/
def leastExponent : Int := -1074

/-- The exponent of the largest numbers. -/
def greatestExponent : Int := 971

/-- Zero. -/
def zero : Double :=
  { mantissa := 0, exponent := leastExponent }

/-- The quotient rounded to the nearest natural number, a tie going to the even one. -/
def roundedQuotient (num den : Nat) : Nat :=
  let quotient := num / den
  let twice := 2 * (num % den)
  if twice < den then quotient
  else if den < twice then quotient + 1
  else quotient + quotient % 2

/-- The ratio `num / den` divided by a power of two, as a ratio. -/
def scaled (num den : Nat) (exponent : Int) : Nat × Nat :=
  (num * Nat.pow 2 (-exponent).toNat, den * Nat.pow 2 exponent.toNat)

/-- The exponent for which the mantissa of the ratio has full precision, or the least one. -/
def exponentOf (num den : Nat) : Int :=
  let guess : Int := (num.log2 : Int) - den.log2 - precision
  let (n, d) := scaled num den guess
  max leastExponent (if n / d < Nat.pow 2 precision then guess else guess + 1)

/-- The number nearest to the ratio `num / den`, if it is not beyond the largest one. -/
def ofRatio? (num den : Nat) : Option Double :=
  if num = 0 then some zero
  else
    let exponent := exponentOf num den
    let (n, d) := scaled num den exponent
    let mantissa := roundedQuotient n d
    let rounded : Double :=
      if mantissa = Nat.pow 2 precision then
        { mantissa := Nat.pow 2 (precision - 1), exponent := exponent + 1 }
      else { mantissa, exponent }
    if greatestExponent < rounded.exponent then none else some rounded

/-- The number as a ratio. -/
def ratio (x : Double) : Nat × Nat :=
  (x.mantissa * Nat.pow 2 x.exponent.toNat, Nat.pow 2 (-x.exponent).toNat)

/-- The product, rounded. -/
def mul? (x y : Double) : Option Double :=
  let (xn, xd) := x.ratio
  let (yn, yd) := y.ratio
  ofRatio? (xn * yn) (xd * yd)

/-- The quotient by a number other than zero, rounded. -/
def div? (x y : Double) : Option Double :=
  let (xn, xd) := x.ratio
  let (yn, yd) := y.ratio
  ofRatio? (xn * yd) (xd * yn)

/-- The largest power of ten that is a finite number. -/
def greatestTen : Nat := 308

/-- The number nearest to a power of ten, whose exponent is at most `greatestTen`. -/
def powerOfTen (n : Nat) : Double :=
  (ofRatio? (Nat.pow 10 n) 1).getD zero

/-- Multiply by a power of ten. The power is applied in one step if it is a finite number. A
smaller one is applied in several steps, each of which rounds; a larger one is out of range. -/
def scaleByTen? : Nat → Double → Int → Option Double
  | 0, x, _ => some x
  | steps + 1, x, exponent =>
    if exponent.natAbs ≤ greatestTen then
      if 0 ≤ exponent then x.mul? (powerOfTen exponent.natAbs)
      else x.div? (powerOfTen exponent.natAbs)
    else if x.mantissa = 0 then some x
    else if 0 ≤ exponent then none
    else
      (x.div? (powerOfTen greatestTen)).bind fun y => scaleByTen? steps y (exponent + greatestTen)

/-- The number for a decimal significand and exponent. -/
def ofDecimal? (significand : Nat) (exponent : Int) : Option Double :=
  (ofRatio? significand 1).bind fun x => scaleByTen? (exponent.natAbs + 1) x exponent

end Double

end TreeHeaders.Numeral
