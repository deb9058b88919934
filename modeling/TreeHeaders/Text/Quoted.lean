import TreeHeaders.Text.Extender
import TreeHeaders.Text.Ignorable
import TreeHeaders.Text.Unprintable

set_option autoImplicit false

/-!
# Quoted text

Text between double quotes in which every character can be seen: what would not show, or would
attach to its neighbour, is written as an escape.
-/

namespace TreeHeaders.Text

/-- The lower case hexadecimal digits of a number, without leading zeros. -/
def hexDigits (n : Nat) : List Char :=
  Nat.toDigits 16 n

/-- Must the character be given by its code? That is so when it has no visible form, when it may
be left unseen, and when it would be drawn on the character before it. -/
def needsCode (c : Char) : Bool :=
  isUnprintable c || isIgnorable c || isExtendingMark c

/-- How one character stands between the quotes. -/
def quotedChar (c : Char) : List Char :=
  if c = '\x00' then ['\\', '0']
  else if c = '\t' then ['\\', 't']
  else if c = '\r' then ['\\', 'r']
  else if c = '\n' then ['\\', 'n']
  else if c = '\\' then ['\\', '\\']
  else if c = '"' then ['\\', '"']
  else if needsCode c then
    ['\\', 'u', '\x7b'] ++ hexDigits c.toNat ++ ['\x7d']
  else [c]

/-- The text in double quotes. -/
def quoted (text : String) : String :=
  String.ofList ('"' :: text.toList.flatMap quotedChar ++ ['"'])

end TreeHeaders.Text
