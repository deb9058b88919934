import TreeHeaders.Numeral.Shortest

set_option autoImplicit false

/-!
# Layout of decimals

Where the point stands, and when an exponent is written.
-/

namespace TreeHeaders.Numeral

/-- The exponents of the leading digit for which a decimal is written without an exponent. -/
structure Layout where
  leastPositional : Int
  greatestPositional : Int
  deriving DecidableEq, Repr, Inhabited

namespace Layout

/-- Positional from `0.00001` up to sixteen digits before the point. -/
def standard : Layout :=
  { leastPositional := -5, greatestPositional := 15 }

/-- The decimal digits of a natural number. -/
def digitsOf (n : Nat) : List Char :=
  Nat.toDigits 10 n

/-- A decimal without an exponent. A whole number ends in `.0`. -/
def positional (d : Decimal) : List Char :=
  let digits := digitsOf d.digits
  let whole := (digits.length : Int) + d.exponent
  if 0 ≤ d.exponent then digits ++ List.replicate d.exponent.toNat '0' ++ ['.', '0']
  else if 0 < whole then digits.take whole.toNat ++ ['.'] ++ digits.drop whole.toNat
  else ['0', '.'] ++ List.replicate (-whole).toNat '0' ++ digits

/-- A decimal with an exponent, whose sign is always written. -/
def scientific (d : Decimal) : List Char :=
  let digits := digitsOf d.digits
  let exponent := (digits.length : Int) + d.exponent - 1
  let sign := if exponent < 0 then '-' else '+'
  let fraction :=
    match digits.drop 1 with
    | [] => []
    | rest => '.' :: rest
  digits.take 1 ++ fraction ++ ['e', sign] ++ digitsOf exponent.natAbs

/-- The text of a decimal. -/
def text (layout : Layout) (d : Decimal) : String :=
  let exponent := (digitCount d.digits : Int) + d.exponent - 1
  if layout.leastPositional ≤ exponent ∧ exponent ≤ layout.greatestPositional then
    String.ofList (positional d)
  else String.ofList (scientific d)

end Layout

end TreeHeaders.Numeral
