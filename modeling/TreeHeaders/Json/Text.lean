import TreeHeaders.Json.Malformation

set_option autoImplicit false

/-!
# Strings

The reading of a string after its opening quote, with escapes by letter and by code unit. Two
code units of a surrogate pair make one character.
-/

namespace TreeHeaders.Json

/-- The value of a hexadecimal digit. -/
def hexDigit? (c : Char) : Option Nat :=
  if '0' ≤ c ∧ c ≤ '9' then some (c.toNat - '0'.toNat)
  else if 'a' ≤ c ∧ c ≤ 'f' then some (c.toNat - 'a'.toNat + 10)
  else if 'A' ≤ c ∧ c ≤ 'F' then some (c.toNat - 'A'.toNat + 10)
  else none

/-- The value of four hexadecimal digits. -/
def codeUnit? (a b c d : Char) : Option Nat := do
  let a ← hexDigit? a
  let b ← hexDigit? b
  let c ← hexDigit? c
  let d ← hexDigit? d
  return ((a * 16 + b) * 16 + c) * 16 + d

/-- The character for a letter after a backslash. -/
def letterEscape? (c : Char) : Option Char :=
  if c = '"' then some '"'
  else if c = '\\' then some '\\'
  else if c = '/' then some '/'
  else if c = 'b' then some '\x08'
  else if c = 'f' then some '\x0c'
  else if c = 'n' then some '\n'
  else if c = 'r' then some '\r'
  else if c = 't' then some '\t'
  else none

/-- Is the code unit the first half of a surrogate pair? -/
def isLeading (n : Nat) : Bool :=
  0xd800 ≤ n && n ≤ 0xdbff

/-- Is the code unit the second half of a surrogate pair? -/
def isTrailing (n : Nat) : Bool :=
  0xdc00 ≤ n && n ≤ 0xdfff

/-- The character that a surrogate pair stands for. -/
def pairedChar (leading trailing : Nat) : Char :=
  Char.ofNat (0x10000 + (leading - 0xd800) * 0x400 + (trailing - 0xdc00))

/-- The fault of a code unit that is not four hexadecimal digits: the end of the text if fewer
than four bytes are left, and otherwise an invalid escape after four bytes. -/
def codeUnitFault (p : Position) (cs : List Char) : Malformation :=
  if (String.ofList cs).utf8ByteSize < 4 then { fault := .endInString, position := p.afterAll cs }
  else { fault := .invalidEscape, position := p.afterBytes 4 cs }

/-- Put a character in front of the string that was read. -/
def consChar (c : Char) (read : List Char × Cursor) : List Char × Cursor :=
  (c :: read.1, read.2)

/-- The characters of a string up to its closing quote, and the cursor after it. -/
def stringChars : Position → List Char → Except Malformation (List Char × Cursor)
  | p, [] => fail .endInString p
  | p, c :: cs =>
    if c = '"' then .ok ([], { position := p.after c, rest := cs })
    else if c.toNat < 0x20 then fail .controlCharacter (p.after c)
    else if c ≠ '\\' then (stringChars (p.after c) cs).map (consChar c)
    else
      match cs with
      | [] => fail .endInString (p.after c)
      | e :: cs =>
        let p := p.after c
        match letterEscape? e with
        | some d => (stringChars (p.after e) cs).map (consChar d)
        | none =>
          if e ≠ 'u' then fail .invalidEscape (p.afterByte e)
          else
            let p := p.after e
            match cs with
            | h₁ :: h₂ :: h₃ :: h₄ :: cs =>
              match codeUnit? h₁ h₂ h₃ h₄ with
              | none => .error (codeUnitFault p (h₁ :: h₂ :: h₃ :: h₄ :: cs))
              | some n =>
                let p := p.afterAll [h₁, h₂, h₃, h₄]
                if isTrailing n then fail .loneSurrogate p
                else if !isLeading n then (stringChars p cs).map (consChar (Char.ofNat n))
                else
                  match cs with
                  | [] => fail .endInString p
                  | b :: cs =>
                    if b ≠ '\\' then fail .unfinishedPair (p.afterByte b)
                    else
                      let p := p.after b
                      match cs with
                      | [] => fail .endInString p
                      | u :: cs =>
                        if u ≠ 'u' then fail .unfinishedPair (p.afterByte u)
                        else
                          let p := p.after u
                          match cs with
                          | k₁ :: k₂ :: k₃ :: k₄ :: cs =>
                            match codeUnit? k₁ k₂ k₃ k₄ with
                            | none => .error (codeUnitFault p (k₁ :: k₂ :: k₃ :: k₄ :: cs))
                            | some m =>
                              let p := p.afterAll [k₁, k₂, k₃, k₄]
                              if isTrailing m then
                                (stringChars p cs).map (consChar (pairedChar n m))
                              else fail .loneSurrogate p
                          | cs => .error (codeUnitFault p cs)
            | cs => .error (codeUnitFault p cs)

/-- Read a string after its opening quote. -/
def readStringRest : Step String := fun c => do
  let (chars, c) ← stringChars c.position c.rest
  .ok (String.ofList chars, c)

end TreeHeaders.Json
