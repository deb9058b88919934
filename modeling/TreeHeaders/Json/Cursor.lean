set_option autoImplicit false

/-!
# Cursors

A place in a text, as a line and a column, and the characters that follow it. Columns count
bytes of the encoded text, so a character beyond ASCII is several columns wide.
-/

namespace TreeHeaders.Json

/-- A line, counted from one, and how many bytes of it have been passed. -/
structure Position where
  line : Nat
  column : Nat
  deriving DecidableEq, Repr, Inhabited

namespace Position

/-- The position of the first character. -/
def start : Position :=
  { line := 1, column := 0 }

/-- The position after the first bytes of a character. -/
def afterPart (p : Position) (c : Char) (bytes : Nat) : Position :=
  if c = '\n' then { line := p.line + 1, column := 0 }
  else { p with column := p.column + bytes }

/-- The position after a character. -/
def after (p : Position) (c : Char) : Position :=
  p.afterPart c c.utf8Size

/-- The position after the first byte of a character. -/
def afterByte (p : Position) (c : Char) : Position :=
  p.afterPart c 1

/-- The position after a number of bytes, or at the end if there are fewer. -/
def afterBytes : Position → Nat → List Char → Position
  | p, _, [] => p
  | p, bytes, c :: cs =>
    if bytes = 0 then p
    else if bytes < c.utf8Size then p.afterPart c bytes
    else (p.after c).afterBytes (bytes - c.utf8Size) cs

/-- The position after all of the characters. -/
def afterAll (p : Position) (cs : List Char) : Position :=
  cs.foldl after p

end Position

/-- A position in a text and what is still to be read. -/
structure Cursor where
  position : Position
  rest : List Char
  deriving DecidableEq, Repr, Inhabited

namespace Cursor

/-- The cursor in front of a text. -/
def start (text : String) : Cursor :=
  { position := .start, rest := text.toList }

/-- The position of the next byte's end: where a fault is reported that is seen
without reading on. -/
def peek (c : Cursor) : Position :=
  match c.rest with
  | [] => c.position
  | ch :: _ => c.position.afterByte ch

/-- Pass one character, given what follows it. -/
def pass (c : Cursor) (ch : Char) (rest : List Char) : Cursor :=
  { position := c.position.after ch, rest }

end Cursor

/-- The blanks of the format, which are fewer than those of Unicode. -/
def isSpace (c : Char) : Bool :=
  c = ' ' || c = '\n' || c = '\t' || c = '\r'

/-- Skip blanks. -/
def skipSpaces : Position → List Char → Cursor
  | p, [] => { position := p, rest := [] }
  | p, c :: cs =>
    if isSpace c then skipSpaces (p.after c) cs else { position := p, rest := c :: cs }

/-- The cursor after the blanks that follow it. -/
def Cursor.skip (c : Cursor) : Cursor :=
  skipSpaces c.position c.rest

theorem rest_skipSpaces (p : Position) (cs : List Char) :
    (skipSpaces p cs).rest = cs.dropWhile isSpace := by
  induction cs generalizing p with
  | nil => rfl
  | cons c cs ih => cases h : isSpace c <;> simp [skipSpaces, List.dropWhile, h, ih]

/-- Skipping leaves what follows the blanks. -/
theorem Cursor.rest_skip (c : Cursor) : c.skip.rest = c.rest.dropWhile isSpace :=
  rest_skipSpaces c.position c.rest

end TreeHeaders.Json
