import TreeHeaders.Json.Text
import Mathlib.Data.List.Forall2

set_option autoImplicit false

/-!
# How values are written

The grammar of JSON texts as a relation between a value and a text, without a reader:
`Json.Written`. A value has many texts. Blanks may stand around every value and every sign
between them, and a character of a string may be written as it is, by a letter after a
backslash, or by its code units in hexadecimal digits of either case.
-/

namespace TreeHeaders.Json

/-- A value. The members of an object stand in the order in which they are written. -/
inductive Value where
  | null
  | boolean (b : Bool)
  /-- a number, as it is written -/
  | number (text : List Char)
  | string (s : String)
  | array (items : List Value)
  | object (members : List (String × Value))
  deriving Inhabited

/-- The value is an object with one member for each of the keys, in this order, and no key comes
twice. -/
def Value.IsObject {κ : Type} (M : κ → String × Value → Prop) (ks : List κ) (v : Value) : Prop :=
  ∃ ms, v = .object ms ∧ ks.Nodup ∧ List.Forall₂ M ks ms

/-- Blanks, which have no meaning between values and signs. -/
def Spaces (ws : List Char) : Prop :=
  ∀ c ∈ ws, c = ' ' ∨ c = '\t' ∨ c = '\n' ∨ c = '\r'

theorem spaces_nil : Spaces [] :=
  fun _ h => absurd h List.not_mem_nil

/-! ## Strings -/

/-- The code units of a character: one, or a pair of surrogates. -/
def codeUnits (c : Char) : List Nat :=
  if c.toNat < 0x10000 then [c.toNat]
  else [0xd800 + (c.toNat - 0x10000) / 0x400, 0xdc00 + (c.toNat - 0x10000) % 0x400]

/-- The character is the hexadecimal digit of the value, in either case. -/
def HexDigit (c : Char) (n : Nat) : Prop :=
  n < 16 ∧ (c = n.digitChar ∨ c = n.digitChar.toUpper)

/-- A code unit is written as four hexadecimal digits. -/
inductive UnitText : Nat → List Char → Prop where
  | mk {a b c d : Char} {i j k l : Nat} (ha : HexDigit a i) (hb : HexDigit b j)
    (hc : HexDigit c k) (hd : HexDigit d l) :
    UnitText (i * 4096 + j * 256 + k * 16 + l) ['\\', 'u', a, b, c, d]

/-- The letters that stand for a character after a backslash. -/
def letterEscapes : List (Char × Char) :=
  [('"', '"'), ('\\', '\\'), ('/', '/'), ('b', '\x08'), ('f', '\x0c'), ('n', '\n'), ('r', '\r'),
   ('t', '\t')]

/-- The ways to write a character of a string. -/
inductive CharText : Char → List Char → Prop where
  | plain {c : Char} (hcontrol : 0x20 ≤ c.toNat) (hquote : c ≠ '"') (hbackslash : c ≠ '\\') :
    CharText c [c]
  | letter {c e : Char} (h : (e, c) ∈ letterEscapes) : CharText c ['\\', e]
  | units {c : Char} {texts : List (List Char)} (h : List.Forall₂ UnitText (codeUnits c) texts) :
    CharText c texts.flatten

/-- A string is written between quotes, character by character. -/
inductive StringText : String → List Char → Prop where
  | mk {s : String} {texts : List (List Char)} (h : List.Forall₂ CharText s.toList texts) :
    StringText s ('"' :: (texts.flatten ++ ['"']))

/-! ## Numbers -/

/-- One or more decimal digits. -/
def Digits (cs : List Char) : Prop :=
  cs ≠ [] ∧ ∀ c ∈ cs, c.isDigit = true

/-- A number is a whole part without needless zeros, maybe with a sign before it and a fraction
and an exponent behind it. -/
inductive NumberText : List Char → Prop where
  | mk {sign whole fraction exponent : List Char} (hsign : sign = [] ∨ sign = ['-'])
    (hwhole : Digits whole) (hzero : whole.head? = some '0' → whole = ['0'])
    (hfraction : fraction = [] ∨ ∃ ds, Digits ds ∧ fraction = '.' :: ds)
    (hexponent : exponent = [] ∨ ∃ e s ds, (e = 'e' ∨ e = 'E') ∧
      (s = [] ∨ s = ['+'] ∨ s = ['-']) ∧ Digits ds ∧ exponent = e :: (s ++ ds)) :
    NumberText (sign ++ (whole ++ (fraction ++ exponent)))

/-! ## Arrays and objects -/

/-- Further items after one, each behind a comma, up to the closing sign. -/
inductive MoreItems {α : Type} (W : α → List Char → Prop) : List α → List Char → Prop where
  | nil {ws : List Char} (h : Spaces ws) : MoreItems W [] ws
  | cons {x : α} {xs : List α} {ws ws' text more : List Char} (hws : Spaces ws)
    (hws' : Spaces ws') (hx : W x text) (hmore : MoreItems W xs more) :
    MoreItems W (x :: xs) (ws ++ ',' :: (ws' ++ (text ++ more)))

/-- Items between an opening and a closing sign, with commas between them. -/
inductive Items {α : Type} (W : α → List Char → Prop) : List α → List Char → Prop where
  | nil {ws : List Char} (h : Spaces ws) : Items W [] ws
  | cons {x : α} {xs : List α} {ws text more : List Char} (hws : Spaces ws) (hx : W x text)
    (hmore : MoreItems W xs more) : Items W (x :: xs) (ws ++ (text ++ more))

/-- A member is written as its key, a colon and its value. -/
inductive MemberText (W : Value → List Char → Prop) : String × Value → List Char → Prop where
  | mk {key : String} {v : Value} {name ws ws' text : List Char} (hkey : StringText key name)
    (hws : Spaces ws) (hws' : Spaces ws') (hv : W v text) :
    MemberText W (key, v) (name ++ (ws ++ ':' :: (ws' ++ text)))

/-- The texts of a value, without blanks at their ends. -/
inductive Written : Value → List Char → Prop where
  | null : Written .null ['n', 'u', 'l', 'l']
  | trueWord : Written (.boolean true) ['t', 'r', 'u', 'e']
  | falseWord : Written (.boolean false) ['f', 'a', 'l', 's', 'e']
  | number {text : List Char} (h : NumberText text) : Written (.number text) text
  | string {s : String} {text : List Char} (h : StringText s text) : Written (.string s) text
  | array {items : List Value} {text : List Char} (h : Items Written items text) :
    Written (.array items) ('[' :: (text ++ [']']))
  | object {members : List (String × Value)} {text : List Char}
    (h : Items (MemberText Written) members text) :
    Written (.object members) ('\x7b' :: (text ++ ['\x7d']))

/-- The whole text of a document that holds one value, where blanks may stand
around the value. -/
def WrittenDocument (v : Value) (text : List Char) : Prop :=
  ∃ ws inner ws', Spaces ws ∧ Written v inner ∧ Spaces ws' ∧ text = ws ++ (inner ++ ws')

/-! ## First characters -/

theorem isSpace_iff {c : Char} :
    isSpace c = true ↔ c = ' ' ∨ c = '\t' ∨ c = '\n' ∨ c = '\r' := by
  simp only [isSpace, Bool.or_eq_true, decide_eq_true_eq]
  constructor
  · rintro (((h | h) | h) | h)
    · exact Or.inl h
    · exact Or.inr (Or.inr (Or.inl h))
    · exact Or.inr (Or.inl h)
    · exact Or.inr (Or.inr (Or.inr h))
  · rintro (h | h | h | h)
    · exact Or.inl (Or.inl (Or.inl h))
    · exact Or.inl (Or.inr h)
    · exact Or.inl (Or.inl (Or.inr h))
    · exact Or.inr h

/-- The character is neither a blank nor the end of an array, so a value can start with it. -/
def StartsValue (c : Char) : Prop :=
  isSpace c = false ∧ c ≠ ']'

theorem startsValue_of_isDigit {c : Char} (h : c.isDigit = true) : StartsValue c := by
  constructor
  · cases hs : isSpace c with
    | false => rfl
    | true =>
      rcases isSpace_iff.1 hs with rfl | rfl | rfl | rfl <;> exact absurd h (by decide)
  · rintro rfl
    exact absurd h (by decide)

theorem NumberText.exists_cons {text : List Char} (h : NumberText text) :
    ∃ c cs, text = c :: cs ∧ StartsValue c := by
  obtain ⟨hsign, ⟨hne, hdigits⟩, -, -, -⟩ := h
  rcases hsign with rfl | rfl
  · obtain ⟨c, cs, rfl⟩ := List.exists_cons_of_ne_nil hne
    exact ⟨c, _, rfl, startsValue_of_isDigit (hdigits c List.mem_cons_self)⟩
  · exact ⟨'-', _, rfl, by decide, by decide⟩

/-- A value starts with a character of its own, before the first blank. -/
theorem Written.exists_cons {v : Value} {text : List Char} (h : Written v text) :
    ∃ c cs, text = c :: cs ∧ StartsValue c := by
  cases h with
  | number h => exact h.exists_cons
  | string h =>
    obtain ⟨-⟩ := h
    exact ⟨'"', _, rfl, by decide, by decide⟩
  | _ => exact ⟨_, _, rfl, by decide, by decide⟩

/-- Every item takes up a character. -/
theorem MoreItems.length_le {α : Type} {W : α → List Char → Prop} {xs : List α}
    {text : List Char} (h : MoreItems W xs text) : xs.length ≤ text.length := by
  induction h with
  | nil h => exact Nat.zero_le _
  | cons _ _ _ _ ih =>
    simp only [List.length_cons, List.length_append]
    omega

theorem Items.length_le {α : Type} {W : α → List Char → Prop} {xs : List α} {text : List Char}
    (h : Items W xs text) : xs.length ≤ text.length + 1 := by
  cases h with
  | nil h => exact Nat.zero_le _
  | cons _ _ hmore =>
    have hlength := hmore.length_le
    simp only [List.length_cons, List.length_append]
    omega

/-! ## Every string can be written -/

/-- A code unit as four digits in lower case. -/
def unitText (n : Nat) : List Char :=
  ['\\', 'u', (n / 4096).digitChar, (n / 256 % 16).digitChar, (n / 16 % 16).digitChar,
    (n % 16).digitChar]

/-- The character in a string, as it is where that is possible. -/
def charText (c : Char) : List Char :=
  if c = '"' ∨ c = '\\' then ['\\', c]
  else if c.toNat < 0x20 then unitText c.toNat
  else [c]

/-- The string between quotes. -/
def quoted (s : String) : List Char :=
  '"' :: (s.toList.flatMap charText ++ ['"'])

theorem unitText_written {n : Nat} (h : n < 0x10000) : UnitText n (unitText n) := by
  have hdigit : ∀ {m : Nat}, m < 16 → HexDigit m.digitChar m := fun hm => ⟨hm, Or.inl rfl⟩
  have hunit := UnitText.mk (hdigit (m := n / 4096) (by omega))
    (hdigit (m := n / 256 % 16) (by omega)) (hdigit (m := n / 16 % 16) (by omega))
    (hdigit (m := n % 16) (by omega))
  rwa [show n / 4096 * 4096 + n / 256 % 16 * 256 + n / 16 % 16 * 16 + n % 16 = n by omega]
    at hunit

theorem charText_written (c : Char) : CharText c (charText c) := by
  unfold charText
  split
  · next h =>
    refine .letter ?_
    rcases h with rfl | rfl <;> decide
  · next h =>
    rw [not_or] at h
    split
    · next hcontrol =>
      have hunits : List.Forall₂ UnitText (codeUnits c) [unitText c.toNat] := by
        rw [codeUnits, if_pos (by omega)]
        exact .cons (unitText_written (by omega)) .nil
      simpa using CharText.units hunits
    · next hcontrol => exact .plain (by omega) h.1 h.2

theorem quoted_written (s : String) : StringText s (quoted s) := by
  have hchars : List.Forall₂ CharText s.toList (s.toList.map charText) := by
    rw [List.forall₂_map_right_iff, List.forall₂_same]
    exact fun c _ => charText_written c
  simpa [quoted, List.flatMap_def] using StringText.mk hchars

/-- Items can be written one after the other if each one can be written. -/
theorem exists_items {α : Type} {W : α → List Char → Prop} {xs : List α}
    (h : ∀ x ∈ xs, ∃ text, W x text) : ∃ text, Items W xs text := by
  have hmore : ∀ {ys : List α}, (∀ y ∈ ys, ∃ text, W y text) → ∃ text, MoreItems W ys text := by
    intro ys hys
    induction ys with
    | nil => exact ⟨[], .nil spaces_nil⟩
    | cons y ys ih =>
      obtain ⟨⟨text, hy⟩, hys⟩ := List.forall_mem_cons.1 hys
      obtain ⟨more, hmore⟩ := ih hys
      exact ⟨_, .cons spaces_nil spaces_nil hy hmore⟩
  cases xs with
  | nil => exact ⟨[], .nil spaces_nil⟩
  | cons x xs =>
    obtain ⟨⟨text, hx⟩, hxs⟩ := List.forall_mem_cons.1 h
    obtain ⟨more, hmore⟩ := hmore hxs
    exact ⟨_, .cons spaces_nil hx hmore⟩

theorem Written.exists_array {items : List Value} (h : ∀ v ∈ items, ∃ text, Written v text) :
    ∃ text, Written (.array items) text := by
  obtain ⟨text, htext⟩ := exists_items h
  exact ⟨_, .array htext⟩

theorem Written.exists_object {ms : List (String × Value)}
    (h : ∀ m ∈ ms, ∃ text, Written m.2 text) : ∃ text, Written (.object ms) text := by
  have hms : ∀ m ∈ ms, ∃ text, MemberText Written m text := by
    rintro ⟨key, v⟩ hm
    obtain ⟨text, hv⟩ := h _ hm
    exact ⟨_, .mk (quoted_written key) spaces_nil spaces_nil hv⟩
  obtain ⟨text, htext⟩ := exists_items hms
  exact ⟨_, .object htext⟩

end TreeHeaders.Json
