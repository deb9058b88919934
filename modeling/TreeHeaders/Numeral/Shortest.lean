import TreeHeaders.Numeral.Double

set_option autoImplicit false

/-!
# Shortest decimals

The fewest decimal digits that read back as a given number, and of those the nearest to it.
-/

namespace TreeHeaders.Numeral

/-- The number `digits * 10 ^ exponent`. -/
structure Decimal where
  digits : Nat
  exponent : Int
  deriving DecidableEq, Repr, Inhabited

/-- How many decimal digits a natural number has. -/
def digitCount (n : Nat) : Nat :=
  (Nat.toDigits 10 n).length

/-- The decimal exponent of the leading digit of a positive ratio. -/
def leadingExponent (num den : Nat) : Int :=
  if den ≤ num then (digitCount (num / den) : Int) - 1
  else -(digitCount ((den + num - 1) / num - 1) : Int)

/-- The decimal with its trailing zeros moved into the exponent, at most `steps` of them. -/
def Decimal.stripped : Nat → Decimal → Decimal
  | 0, d => d
  | steps + 1, d =>
    if d.digits ≠ 0 ∧ d.digits % 10 = 0 then
      stripped steps { digits := d.digits / 10, exponent := d.exponent + 1 }
    else d

namespace Double

/-- The numbers that round to a given one, as multiples of a quarter of the unit of its
mantissa: the two ends, and whether they belong to it. -/
structure Interval where
  low : Nat
  high : Nat
  closed : Bool
  deriving DecidableEq, Repr, Inhabited

/-- The numbers that round to `x`. Below a power of two they lie half as dense. -/
def interval (x : Double) : Interval where
  low :=
    if x.mantissa = Nat.pow 2 (precision - 1) ∧ leastExponent < x.exponent then 4 * x.mantissa - 1
    else 4 * x.mantissa - 2
  high := 4 * x.mantissa + 2
  closed := x.mantissa % 2 = 0

/-- A decimal and the unit of an interval, brought to a common denominator: the digits are to be
multiplied by the first number, multiples of the unit by the second. -/
def commonScale (x : Double) (exponent : Int) : Nat × Nat :=
  let unit := x.exponent - 2
  (Nat.pow 10 exponent.toNat * Nat.pow 2 (-unit).toNat,
    Nat.pow 2 unit.toNat * Nat.pow 10 (-exponent).toNat)

/-- Do the digits, at the decimal exponent, read back as `x`? -/
def readsBack (x : Double) (exponent : Int) (digits : Nat) : Bool :=
  let (ten, two) := x.commonScale exponent
  let i := x.interval
  if i.closed then i.low * two ≤ digits * ten && digits * ten ≤ i.high * two
  else i.low * two < digits * ten && digits * ten < i.high * two

/-- The decimal on the grid of the given exponent that reads back as `x`: of the two neighbours
of `x` the nearer, and of two equally near ones the even. -/
def onGrid? (x : Double) (exponent : Int) : Option Decimal :=
  let (ten, two) := x.commonScale exponent
  let value := 4 * x.mantissa * two
  let below := value / ten
  let above := below + 1
  let twice := 2 * (value % ten)
  let nearer := if twice < ten ∨ (twice = ten ∧ below % 2 = 0) then below else above
  let farther := if nearer = below then above else below
  if x.readsBack exponent nearer then some { digits := nearer, exponent }
  else if x.readsBack exponent farther then some { digits := farther, exponent }
  else none

/-- The most digits that are ever needed. -/
def mostDigits : Nat := 17

/-- Try grids of one digit more each, starting with the given exponent. -/
def finest (x : Double) : Nat → Int → Decimal
  | 0, exponent => { digits := 0, exponent }
  | grids + 1, exponent =>
    match x.onGrid? exponent with
    | some d => d
    | none => finest x grids (exponent - 1)

/-- The shortest decimal that reads back as the number. -/
def shortest (x : Double) : Decimal :=
  if x.mantissa = 0 then { digits := 0, exponent := 0 }
  else
    let (num, den) := x.ratio
    (x.finest mostDigits (leadingExponent num den)).stripped mostDigits

end Double

end TreeHeaders.Numeral
