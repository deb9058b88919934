import TreeHeaders.FieldType
import TreeHeaders.Identifier
import TreeHeaders.Text.Blank

set_option autoImplicit false

/-!
# Type texts

The reading of a field type as it is written in a schema, before its name is looked up among the
families. Blanks around the type, and around the name inside brackets, have no meaning.
-/

namespace TreeHeaders

/-- What the text of a field type asks for. -/
inductive TypeText where
  /-- a primitive, by its keyword -/
  | primitive (p : Primitive)
  /-- the token type -/
  | token
  /-- a node of the named family -/
  | node (family : String)
  /-- a list of nodes of the named family -/
  | list (family : String)
  /-- nothing that can be a type -/
  | unknown
  deriving DecidableEq, Repr, Inhabited

namespace TypeText

/-- What stands between `[` in front and `]` at the end. -/
def unbracket? : List Char → Option (List Char)
  | [] => none
  | c :: cs => if c = '[' ∧ cs.getLast? = some ']' then some cs.dropLast else none

/-- Read a text without blanks at its ends. -/
def ofTrimmed (text : String) : TypeText :=
  match Primitive.ofKeyword? text with
  | some p => .primitive p
  | none =>
    if text = tokenName then .token
    else
      match unbracket? text.toList with
      | some inside =>
        let name := String.ofList (Text.trimChars inside)
        if isIdentifier name then .list name else .unknown
      | none => if isIdentifier text then .node text else .unknown

/-- Read the text of a field type. -/
def parse (text : String) : TypeText :=
  ofTrimmed (Text.trim text)

/-- The brackets around a list are the first and the last character. -/
theorem unbracket?_eq_some_iff {cs inside : List Char} :
    unbracket? cs = some inside ↔ cs = '[' :: (inside ++ [']']) := by
  cases cs with
  | nil => simp [unbracket?]
  | cons c cs =>
    simp only [unbracket?, List.cons.injEq]
    constructor
    · intro h
      split at h
      · next hc =>
        obtain ⟨rfl, hl⟩ := hc
        obtain ⟨ys, rfl⟩ := List.getLast?_eq_some_iff.1 hl
        simpa using h
      · exact absurd h (by simp)
    · rintro ⟨rfl, rfl⟩
      simp

end TypeText

end TreeHeaders
