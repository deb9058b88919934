set_option autoImplicit false

/-!
# Blanks

The characters with the Unicode property `White_Space`, and trimming a text of them. Types in a
schema are compared after trimming, so this set decides which spellings of a type are the same.
-/

namespace TreeHeaders.Text

/-- The characters with the property `White_Space`, in code point order. -/
def blanks : List Char :=
  ['\t', '\n', '\x0b', '\x0c', '\r', ' ', '\u0085', '\u00a0', '\u1680', '\u2000', '\u2001',
   '\u2002', '\u2003', '\u2004', '\u2005', '\u2006', '\u2007', '\u2008', '\u2009', '\u200a',
   '\u2028', '\u2029', '\u202f', '\u205f', '\u3000']

/-- Is the character a blank? -/
def isBlank (c : Char) : Bool :=
  blanks.contains c

/-- The characters without the blanks at either end. -/
def trimChars (cs : List Char) : List Char :=
  ((cs.dropWhile isBlank).reverse.dropWhile isBlank).reverse

/-- The text without the blanks at either end. -/
def trim (text : String) : String :=
  String.ofList (trimChars text.toList)

@[simp]
theorem toList_trim (text : String) : (trim text).toList = trimChars text.toList := by
  simp [trim]

@[simp]
theorem trimChars_nil : trimChars [] = [] := rfl

/-- Leading blanks do not matter. -/
theorem trimChars_append_left {ws : List Char} (h : ws.all isBlank = true) (cs : List Char) :
    trimChars (ws ++ cs) = trimChars cs := by
  have : (ws ++ cs).dropWhile isBlank = cs.dropWhile isBlank := by
    rw [List.dropWhile_append_of_pos]
    simpa using h
  simp [trimChars, this]

end TreeHeaders.Text
