import TreeHeaders.Json.Number
import TreeHeaders.Json.Text

set_option autoImplicit false

/-!
# Typed reading

Reading a value of an expected type. The text is read once from left to right, and the first
fault is the answer; a value of another type is only read as far as its description needs.

Arrays and objects are read in rounds, one per element or member. Every round passes a
character, so as many rounds as there are characters left are enough.
-/

namespace TreeHeaders.Json

/-! ## Scalars -/

/-- Read the letters of a literal after its first one. -/
def readLetters : List Char → Cursor → Except Malformation Cursor
  | [], c => .ok c
  | l :: ls, c =>
    match c.rest with
    | [] => fail .endInValue c.position
    | d :: cs =>
      if d = l then readLetters ls (c.pass d cs)
      else fail .expectedLiteral (c.position.afterByte d)

/-- Describe the value at the cursor, which is not of the expected type. Faults inside of the
value win over its type. -/
def describeValue (c : Cursor) : Except Malformation (Found × Cursor) :=
  match c.rest with
  | [] => fail .expectedValue c.peek
  | d :: cs =>
    let after := c.pass d cs
    if d = 'n' then do
      let c ← readLetters ['u', 'l', 'l'] after
      .ok (.null, c)
    else if d = 't' then do
      let c ← readLetters ['r', 'u', 'e'] after
      .ok (.boolean true, c)
    else if d = 'f' then do
      let c ← readLetters ['a', 'l', 's', 'e'] after
      .ok (.boolean false, c)
    else if d = '-' then do
      let (n, c) ← readUnsigned true after
      .ok (.number n, c)
    else if d.isDigit then do
      let (n, c) ← readUnsigned false c
      .ok (.number n, c)
    else if d = '"' then do
      let (s, c) ← readStringRest after
      .ok (.string s, c)
    else if d = '[' then .ok (.array, c)
    else if d = '\x7b' then .ok (.object, c)
    else fail .expectedValue c.peek

/-- Refuse the value at the cursor, because another type is expected. -/
def refuse {α : Type} (expected : Expected) (c : Cursor) : Except Malformation α := do
  let (found, c) ← describeValue c
  fail (.invalidType found expected) c.position

/-- Skip blanks and look at the first character of a value. -/
def readValue {α : Type} (read : Char → List Char → Step α) : Step α := fun c =>
  let c := c.skip
  match c.rest with
  | [] => fail .endInValue c.position
  | d :: cs => read d cs c

/-- Read a string. -/
def readString : Step String :=
  readValue fun d cs c =>
    if d = '"' then readStringRest (c.pass d cs) else refuse .string c

/-- Read `true` or `false`. -/
def readBoolean : Step Bool :=
  readValue fun d cs c =>
    if d = 't' then do
      let c ← readLetters ['r', 'u', 'e'] (c.pass d cs)
      .ok (true, c)
    else if d = 'f' then do
      let c ← readLetters ['a', 'l', 's', 'e'] (c.pass d cs)
      .ok (false, c)
    else refuse .boolean c

/-- Read a string or `null`. -/
def readStringOrNull : Step (Option String) := fun c =>
  let c := c.skip
  match c.rest with
  | d :: cs =>
    if d = 'n' then do
      let c ← readLetters ['u', 'l', 'l'] (c.pass d cs)
      .ok (none, c)
    else do
      let (s, c) ← readString c
      .ok (some s, c)
  | [] => fail .endInValue c.position

/-! ## Arrays -/

/-- Is there another element? If so, the cursor is in front of it, and otherwise in front of the
closing bracket. -/
def nextElement (first : Bool) : Step Bool := fun c =>
  let c := c.skip
  match c.rest with
  | [] => fail .endInArray c.position
  | d :: cs =>
    if d = ']' then .ok (false, c)
    else if first then .ok (true, c)
    else if d = ',' then
      let c := (c.pass d cs).skip
      match c.rest with
      | [] => fail .endInValue c.position
      | e :: _ => if e = ']' then fail .trailingComma c.peek else .ok (true, c)
    else fail .expectedArrayEnd c.peek

/-- Pass the closing bracket of an array of which all expected elements are read. -/
def closeArray (c : Cursor) : Except Malformation Cursor :=
  let c := c.skip
  match c.rest with
  | [] => fail .endInArray c.position
  | d :: cs =>
    if d = ']' then .ok (c.pass d cs)
    else if d = ',' then
      let c := (c.pass d cs).skip
      match c.rest with
      | e :: _ => if e = ']' then fail .trailingComma c.peek else fail .trailingCharacters c.peek
      | [] => fail .trailingCharacters c.position
    else fail .trailingCharacters c.peek

/-- Read the elements of an array up to its end, in at most so many rounds. -/
def readElements {α : Type} (element : Step α) : Nat → Bool → Step (List α)
  | 0, _, c => fail .endInArray c.position
  | rounds + 1, first, c => do
    let (more, c) ← nextElement first c
    if more then
      let (x, c) ← element c
      let (xs, c) ← readElements element rounds false c
      .ok (x :: xs, c)
    else
      let c ← closeArray c
      .ok ([], c)

/-- Read an array of any length. -/
def readArray {α : Type} (element : Step α) : Step (List α) :=
  readValue fun d cs c =>
    if d = '[' then readElements element (cs.length + 1) true (c.pass d cs) else refuse .array c

/-- Read an element that the array must have, given how many there are before it. -/
def requiredElement {α : Type} (expected : Expected) (index : Nat) (element : Step α) : Step α :=
  fun c => do
    let (more, c) ← nextElement (index == 0) c
    if more then element c
    else
      let c ← closeArray c
      fail (.invalidLength index expected) c.position

/-- Read an element that the array may lack, given what stands for it then. -/
def optionalElement {α : Type} (default : α) (element : Step α) : Step α := fun c => do
  let (more, c) ← nextElement false c
  if more then element c else .ok (default, c)

/-- Read an array of two elements. -/
def readPair {α β : Type} (left : Step α) (right : Step β) : Step (α × β) :=
  readValue fun d cs c =>
    if d = '[' then do
      let (x, c) ← requiredElement .pair 0 left (c.pass d cs)
      let (y, c) ← requiredElement .pair 1 right c
      let c ← closeArray c
      .ok ((x, y), c)
    else refuse .pair c

/-! ## Objects -/

/-- The key of the next member, if there is one. The cursor is then after the key, and otherwise
in front of the closing brace. -/
def nextKey (first : Bool) : Step (Option String) := fun c =>
  let c := c.skip
  match c.rest with
  | [] => fail .endInObject c.position
  | d :: cs =>
    if d = '\x7d' then .ok (none, c)
    else if first then
      if d = '"' then do
        let (key, c) ← readStringRest (c.pass d cs)
        .ok (some key, c)
      else fail .keyNotString c.peek
    else if d = ',' then
      let c := (c.pass d cs).skip
      match c.rest with
      | [] => fail .endInValue c.position
      | e :: cs =>
        if e = '"' then do
          let (key, c) ← readStringRest (c.pass e cs)
          .ok (some key, c)
        else if e = '\x7d' then fail .trailingComma c.peek
        else fail .keyNotString c.peek
    else fail .expectedObjectEnd c.peek

/-- Pass the colon after a key. -/
def passColon (c : Cursor) : Except Malformation Cursor :=
  let c := c.skip
  match c.rest with
  | [] => fail .endInObject c.position
  | d :: cs => if d = ':' then .ok (c.pass d cs) else fail .expectedColon c.peek

/-- The cursor after the closing brace, if that comes next. The faults of members as
such are reported there. -/
def afterBrace (c : Cursor) : Cursor :=
  let c := c.skip
  match c.rest with
  | d :: cs => if d = '\x7d' then c.pass d cs else c
  | [] => c

/-- The members that an object of some type can have: their keys, and how one is read into the
record under construction. -/
structure Members (κ β : Type) where
  /-- the keys by their text -/
  keys : List (String × κ)
  /-- read the member for a key -/
  read : κ → β → Step β

/-- Read the members of an object up to its end, in at most so many rounds. The keys seen so far
come with the record. -/
def readMembers {κ β : Type} [DecidableEq κ] (members : Members κ β) :
    Nat → Bool → List κ → β → Step (List κ × β)
  | 0, _, _, _, c => fail .endInObject c.position
  | rounds + 1, first, seen, record, c => do
    let (key, c) ← nextKey first c
    match key with
    | none => .ok ((seen, record), afterBrace c)
    | some text =>
      match members.keys.lookup text with
      | none =>
        fail (.unknownMember text (members.keys.map (·.1))) (afterBrace c).position
      | some key =>
        if key ∈ seen then fail (.duplicateMember text) (afterBrace c).position
        else
          let c ← passColon c
          let (record, c) ← members.read key record c
          readMembers members rounds false (seen ++ [key]) record c

/-- Read a record, written as an object or as an array. An object must have the required key. -/
def readRecord {κ β : Type} [DecidableEq κ] (expected : Expected) (members : Members κ β)
    (required : String × κ) (blank : β) (positional : Step β) : Step β :=
  readValue fun d cs c =>
    let after := c.pass d cs
    if d = '\x7b' then do
      let ((seen, record), c) ← readMembers members (cs.length + 1) true [] blank after
      if required.2 ∈ seen then .ok (record, c)
      else fail (.missingMember required.1) c.position
    else if d = '[' then do
      let (record, c) ← positional after
      let c ← closeArray c
      .ok (record, c)
    else refuse expected c

/-- Nothing but blanks may be left. -/
def finish (c : Cursor) : Except Malformation Unit :=
  let c := c.skip
  match c.rest with
  | [] => .ok ()
  | _ => fail .trailingCharacters c.peek

end TreeHeaders.Json
