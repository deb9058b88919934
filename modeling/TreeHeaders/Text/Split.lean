set_option autoImplicit false

/-!
# Splitting text

Splitting characters at a separator keeps every piece, empty ones included, so that joining the
pieces with the separator gives the characters back.
-/

namespace TreeHeaders.Text

/-- Put a character in front of the first piece. -/
def consPiece (c : Char) : List (List Char) → List (List Char)
  | [] => [[c]]
  | piece :: pieces => (c :: piece) :: pieces

/-- The pieces between the occurrences of one separating character. -/
def splitAt (sep : Char) : List Char → List (List Char)
  | [] => [[]]
  | c :: cs => if c = sep then [] :: splitAt sep cs else consPiece c (splitAt sep cs)

/-- The pieces between the occurrences of a doubled separating character, found
from the left. -/
def splitAtPair (sep : Char) : List Char → List (List Char)
  | [] => [[]]
  | [c] => [[c]]
  | c :: d :: cs =>
    if c = sep ∧ d = sep then [] :: splitAtPair sep cs else consPiece c (splitAtPair sep (d :: cs))

/-- The pieces with a separator between each two. -/
def joinPieces (sep : List Char) : List (List Char) → List Char
  | [] => []
  | [piece] => piece
  | piece :: next :: pieces => piece ++ sep ++ joinPieces sep (next :: pieces)

theorem joinPieces_consPiece (sep : List Char) (c : Char) (pieces : List (List Char)) :
    joinPieces sep (consPiece c pieces) = c :: joinPieces sep pieces := by
  match pieces with
  | [] => rfl
  | [_] => rfl
  | _ :: _ :: _ => rfl

theorem splitAt_ne_nil (sep : Char) (cs : List Char) : splitAt sep cs ≠ [] := by
  cases cs with
  | nil => simp [splitAt]
  | cons c cs =>
    simp only [splitAt]
    split
    · simp
    · cases splitAt sep cs <;> simp [consPiece]

theorem splitAtPair_ne_nil (sep : Char) (cs : List Char) : splitAtPair sep cs ≠ [] := by
  match cs with
  | [] => simp [splitAtPair]
  | [_] => simp [splitAtPair]
  | c :: d :: cs =>
    simp only [splitAtPair]
    split
    · simp
    · cases splitAtPair sep (d :: cs) <;> simp [consPiece]

/-- Joining undoes splitting. -/
theorem joinPieces_splitAt (sep : Char) (cs : List Char) :
    joinPieces [sep] (splitAt sep cs) = cs := by
  induction cs with
  | nil => rfl
  | cons c cs ih =>
    simp only [splitAt]
    split
    · next h =>
      subst h
      cases hs : splitAt c cs with
      | nil => exact absurd hs (splitAt_ne_nil c cs)
      | cons piece pieces =>
        rw [hs] at ih
        simp [joinPieces, ih]
    · rw [joinPieces_consPiece, ih]

/-- Joining undoes splitting at a doubled separator. -/
theorem joinPieces_splitAtPair (sep : Char) (cs : List Char) :
    joinPieces [sep, sep] (splitAtPair sep cs) = cs := by
  fun_induction splitAtPair sep cs with
  | case1 => rfl
  | case2 => rfl
  | case3 c d cs h ih =>
    obtain ⟨rfl, rfl⟩ := h
    cases hs : splitAtPair d cs with
    | nil => exact absurd hs (splitAtPair_ne_nil d cs)
    | cons piece pieces =>
      rw [hs] at ih
      simp [joinPieces, ih]
  | case4 c d cs h ih => rw [joinPieces_consPiece, ih]

end TreeHeaders.Text
