import TreeHeaders.Json.Malformation

set_option autoImplicit false

/-!
# Numbers

The reading of a number. Its digits are gathered into a significand of 64 bits; digits that no
longer fit only count for the exponent before the point, and not at all after it.
-/

namespace TreeHeaders.Json

/-- The largest significand. -/
def greatestSignificand : Nat := Nat.pow 2 64 - 1

/-- The largest exponent that can be written. -/
def greatestExponent : Nat := Nat.pow 2 31 - 1

/-- The value of a decimal digit. -/
def digitValue (c : Char) : Nat :=
  c.toNat - '0'.toNat

/-- The number with one more digit, unless it passes the bound. -/
def appendDigit? (bound n digit : Nat) : Option Nat :=
  if n * 10 + digit ≤ bound then some (n * 10 + digit) else none

/-- Append as many digits as fit; the rest is left over. -/
def absorb : Nat → List Char → Nat × List Char
  | n, [] => (n, [])
  | n, c :: cs =>
    match appendDigit? greatestSignificand n (digitValue c) with
    | some m => absorb m cs
    | none => (n, c :: cs)

/-- The cursor after a run of digits, and the digits. -/
def takeDigits (c : Cursor) : List Char × Cursor :=
  let digits := c.rest.takeWhile Char.isDigit
  (digits, { position := c.position.afterAll digits, rest := c.rest.dropWhile Char.isDigit })

/-- The significand and exponent gathered so far. -/
structure Gathered where
  significand : Nat
  exponent : Int
  deriving DecidableEq, Repr, Inhabited

/-- The number made of what was gathered. -/
def Gathered.finish (g : Gathered) (negative : Bool) : Step Number := fun c =>
  match Numeral.Double.ofDecimal? g.significand g.exponent with
  | some size => .ok (.double negative size, c)
  | none => fail .numberOutOfRange c.position

/-- The value of the digits of an exponent and the cursor after them, or the cursor after the
digit with which it becomes too large. -/
def exponentDigits (c : Cursor) : Nat → List Char → Except Cursor (Nat × Cursor)
  | n, [] => .ok (n, c)
  | n, d :: ds =>
    if d.isDigit then
      let c := c.pass d ds
      match appendDigit? greatestExponent n (digitValue d) with
      | some m => exponentDigits c m ds
      | none => .error c
    else .ok (n, c)

/-- Read an exponent after its mark `e`. -/
def readExponent (g : Gathered) (negative : Bool) : Step Number := fun c =>
  let (down, c) :=
    match c.rest with
    | s :: cs =>
      if s = '+' then (false, c.pass s cs)
      else if s = '-' then (true, c.pass s cs)
      else (false, c)
    | [] => (false, c)
  match c.rest with
  | [] => fail .endInValue c.position
  | d :: _ =>
    if !d.isDigit then fail .invalidNumber (c.position.afterByte d)
    else
      match exponentDigits c 0 c.rest with
      | .ok (n, c) =>
        let exponent := if down then g.exponent - n else g.exponent + n
        { g with exponent }.finish negative c
      | .error c =>
        if g.significand ≠ 0 ∧ !down then fail .numberOutOfRange c.position
        else .ok (.double negative .zero, (takeDigits c).2)

/-- Is the character the mark of an exponent? -/
def isExponentMark (c : Char) : Bool :=
  c = 'e' || c = 'E'

/-- Read the rest of a number after the digits of its fraction, if it has one. -/
def readScale (g : Gathered) (negative : Bool) : Step Number := fun c =>
  match c.rest with
  | e :: cs =>
    if isExponentMark e then readExponent g negative (c.pass e cs) else g.finish negative c
  | [] => g.finish negative c

/-- Read a fraction after its point. -/
def readFraction (g : Gathered) (negative : Bool) : Step Number := fun c =>
  match takeDigits c with
  | ([], _) =>
    match c.rest with
    | [] => fail .endInValue c.position
    | _ => fail .invalidNumber c.peek
  | (digits, after) =>
    let (significand, left) := absorb g.significand digits
    let absorbed := digits.length - left.length
    readScale { significand, exponent := g.exponent - absorbed } negative after

/-- A whole number, if it fits: a negative one must be below zero and not below `-2 ^ 63`. -/
def wholeNumber (significand : Nat) (negative : Bool) : Step Number := fun c =>
  if !negative then .ok (.whole significand, c)
  else if 0 < significand ∧ significand ≤ Nat.pow 2 63 then .ok (.whole (-significand), c)
  else Gathered.finish { significand, exponent := 0 } negative c

/-- Read the rest of a number after its whole part, whose digits are given. -/
def readAfterWhole (digits : List Char) (negative : Bool) : Step Number := fun c =>
  let (significand, left) := absorb 0 digits
  let g : Gathered := { significand, exponent := left.length }
  match c.rest with
  | d :: cs =>
    if d = '.' then readFraction g negative (c.pass d cs)
    else if isExponentMark d then readExponent g negative (c.pass d cs)
    else if left = [] then wholeNumber significand negative c
    else g.finish negative c
  | [] => if left = [] then wholeNumber significand negative c else g.finish negative c

/-- Read a number after its sign. -/
def readUnsigned (negative : Bool) : Step Number := fun c =>
  match c.rest with
  | [] => fail .endInValue c.position
  | d :: cs =>
    if d = '0' then
      let c := c.pass d cs
      match cs with
      | e :: _ =>
        if e.isDigit then fail .invalidNumber c.peek else readAfterWhole [d] negative c
      | [] => readAfterWhole [d] negative c
    else if d.isDigit then
      let (digits, c) := takeDigits c
      readAfterWhole digits negative c
    else fail .invalidNumber (c.position.afterByte d)

end TreeHeaders.Json
