set_option autoImplicit false

/-!
# Identifiers

The names that can be used in a generated C++ header. A name has to be an ASCII identifier, must
not be reserved for the implementation of the language, and must not be one of its keywords.
-/

namespace TreeHeaders

namespace Identifier

/-- Can the character start an identifier? -/
def isStart (c : Char) : Bool :=
  c.isAlpha || c = '_'

/-- Can the character stand after the first one of an identifier? -/
def isPart (c : Char) : Bool :=
  c.isAlphanum || c = '_'

/-- Letters, digits and `_`, and no digit in front. -/
def isWellFormed : List Char → Bool
  | [] => false
  | c :: cs => isStart c && cs.all isPart

/-- Do two `_` stand next to each other? -/
def hasDoubleUnderscore : List Char → Bool
  | c :: d :: cs => (c = '_' && d = '_') || hasDoubleUnderscore (d :: cs)
  | _ => false

/-- Does the name start with `_` and a capital letter? -/
def startsLikeReserved : List Char → Bool
  | c :: d :: _ => c = '_' && d.isUpper
  | _ => false

/-- Is the name reserved for the implementation of the language? -/
def isReserved (cs : List Char) : Bool :=
  hasDoubleUnderscore cs || startsLikeReserved cs

/-- The keywords and alternative operator tokens of C++, which cannot name anything. -/
def keywords : List String :=
  ["alignas", "alignof", "and", "and_eq", "asm", "auto", "bitand", "bitor", "bool", "break",
   "case", "catch", "char", "char16_t", "char32_t", "char8_t", "class", "co_await", "co_return",
   "co_yield", "compl", "concept", "const", "const_cast", "consteval", "constexpr", "constinit",
   "continue", "decltype", "default", "delete", "do", "double", "dynamic_cast", "else", "enum",
   "explicit", "export", "extern", "false", "float", "for", "friend", "goto", "if", "inline",
   "int", "long", "mutable", "namespace", "new", "noexcept", "not", "not_eq", "nullptr",
   "operator", "or", "or_eq", "private", "protected", "public", "register", "reinterpret_cast",
   "requires", "return", "short", "signed", "sizeof", "static", "static_assert", "static_cast",
   "struct", "switch", "template", "this", "thread_local", "throw", "true", "try", "typedef",
   "typeid", "typename", "union", "unsigned", "using", "virtual", "void", "volatile", "wchar_t",
   "while", "xor", "xor_eq"]

end Identifier

/-- Can the name be used as an identifier in a generated header? -/
def isIdentifier (name : String) : Bool :=
  Identifier.isWellFormed name.toList && !Identifier.isReserved name.toList &&
    !Identifier.keywords.contains name

namespace Identifier

theorem isWellFormed_of_isIdentifier {name : String} (h : isIdentifier name = true) :
    isWellFormed name.toList = true := by
  simp only [isIdentifier, Bool.and_eq_true] at h
  exact h.1.1

/-- Every character of an identifier is an ASCII letter, a digit or `_`. -/
theorem isPart_of_isIdentifier {name : String} (h : isIdentifier name = true) :
    ∀ c ∈ name.toList, isPart c = true := by
  have hw := isWellFormed_of_isIdentifier h
  cases hn : name.toList with
  | nil => simp
  | cons first rest =>
    rw [hn] at hw
    simp only [isWellFormed, isStart, Bool.and_eq_true, List.all_eq_true] at hw
    intro c hc
    rcases List.mem_cons.1 hc with rfl | hc
    · have := hw.1
      simp only [isPart, Char.isAlphanum]
      simp only [Bool.or_eq_true] at this ⊢
      rcases this with h | h
      · exact Or.inl (Or.inl h)
      · exact Or.inr h
    · exact hw.2 c hc

theorem ne_empty_of_isIdentifier {name : String} (h : isIdentifier name = true) : name ≠ "" := by
  rintro rfl
  exact absurd (isWellFormed_of_isIdentifier h) (by decide)

end Identifier

end TreeHeaders
