import TreeHeaders.Line
import Mathlib.Data.List.Basic

set_option autoImplicit false

/-!
# Lines and words of a text

Reading a text without knowing how it was written: its lines, the words of a line, and what
stands between a fixed beginning and a fixed end.

Words are what lies between blanks, so the indentation of a line and the way in which lines end
leave no trace in them. That makes them the view in which headers of any layout can be compared:
the lines of a rendered text are the lines that were rendered (`lines_renderAll`), and the words
of a rendered line are the words of its text (`words_shown`).
-/

namespace TreeHeaders

namespace Text

/-! ## Words -/

/-- The words of a text: what lies between its blanks. -/
def words (text : String) : List String :=
  ((text.toList.splitOnP Char.isWhitespace).filter (· ≠ [])).map String.ofList

/-- The text is one word. -/
structure IsWord (text : String) : Prop where
  ne_empty : text ≠ ""
  not_isWhitespace : ∀ c ∈ text.toList, c.isWhitespace = false

instance (text : String) : Decidable (IsWord text) :=
  decidable_of_iff (text ≠ "" ∧ (text.toList.all fun c => !c.isWhitespace) = true) <| by
    simp only [List.all_eq_true, Bool.not_eq_true']
    exact ⟨fun h => ⟨h.1, h.2⟩, fun h => ⟨h.1, h.2⟩⟩

theorem IsWord.append {left right : String} (hl : IsWord left) (hr : IsWord right) :
    IsWord (left ++ right) := by
  refine ⟨?_, ?_⟩
  · intro hempty
    have hboth := congrArg String.toList hempty
    rw [String.toList_append, String.toList_empty, List.append_eq_nil_iff] at hboth
    exact hl.ne_empty (String.toList_eq_nil_iff.1 hboth.1)
  · rw [String.toList_append, List.forall_mem_append]
    exact ⟨hl.not_isWhitespace, hr.not_isWhitespace⟩

/-- A blank divides words and is otherwise of no account. -/
theorem words_append_blank {sep : Char} (h : sep.isWhitespace = true) (xs ys : List Char) :
    words (String.ofList (xs ++ sep :: ys)) =
      words (String.ofList xs) ++ words (String.ofList ys) := by
  simp only [words, String.toList_ofList, List.splitOnP_append_cons xs ys h, List.filter_append,
    List.map_append]

theorem words_cons_blank {sep : Char} (h : sep.isWhitespace = true) (cs : List Char) :
    words (String.ofList (sep :: cs)) = words (String.ofList cs) := by
  have hnil : words (String.ofList []) = [] := by decide
  have hsplit := words_append_blank h [] cs
  rwa [hnil] at hsplit

/-- Blanks in front leave no trace. -/
theorem words_append_of_blank {blanks : String} (h : ∀ c ∈ blanks.toList, c.isWhitespace = true)
    (text : String) : words (blanks ++ text) = words text := by
  have hchars : ∀ bs : List Char, (∀ c ∈ bs, c.isWhitespace = true) →
      words (String.ofList (bs ++ text.toList)) = words text := by
    intro bs
    induction bs with
    | nil =>
      intro _
      rw [List.nil_append, String.ofList_toList]
    | cons b bs ih =>
      intro hbs
      rw [List.cons_append, words_cons_blank (hbs b (by simp))]
      exact ih fun c hc => hbs c (List.mem_cons_of_mem b hc)
  have htext : blanks ++ text = String.ofList (blanks.toList ++ text.toList) := by
    apply String.toList_injective
    simp
  rw [htext]
  exact hchars blanks.toList h

theorem IsWord.words_eq {text : String} (h : IsWord text) : words text = [text] := by
  have hne : text.toList ≠ [] := fun hnil => h.ne_empty (String.toList_eq_nil_iff.1 hnil)
  simp [words, List.splitOnP_eq_singleton h.not_isWhitespace, hne]

/-- Words that are set apart by single blanks are the words of the text. -/
theorem words_intercalate {ws : List String} (h : ∀ w ∈ ws, IsWord w) :
    words (" ".intercalate ws) = ws := by
  induction ws with
  | nil => decide
  | cons w ws ih =>
    have hw := (h w (by simp)).words_eq
    have ih := ih fun v hv => h v (List.mem_cons_of_mem w hv)
    cases ws with
    | nil => simpa using hw
    | cons v vs =>
      have htext : " ".intercalate (w :: v :: vs) =
          String.ofList (w.toList ++ ' ' :: (" ".intercalate (v :: vs)).toList) := by
        apply String.toList_injective
        simp
      rw [htext, words_append_blank (by decide), String.ofList_toList, String.ofList_toList, hw, ih]
      rfl

/-- The last word of a text ends like the text. -/
theorem exists_words_eq_append {text : String} {c : Char} (hlast : text.toList.getLast? = some c)
    (hc : c.isWhitespace = false) :
    ∃ front word, words text = front ++ [word] ∧ word.toList.getLast? = some c := by
  -- the last of the pieces between blanks ends with the character, so it is not left out
  have hpieces : ∀ xs : List Char, ∃ front piece,
      (xs ++ [c]).splitOnP Char.isWhitespace = front ++ [piece ++ [c]] := by
    intro xs
    induction xs with
    | nil => exact ⟨[], [], by simp [List.splitOnP_cons_eq_if_modifyHead, hc]⟩
    | cons x xs ih =>
      obtain ⟨front, piece, hsplit⟩ := ih
      rw [List.cons_append, List.splitOnP_cons_eq_if_modifyHead, hsplit]
      split
      · exact ⟨[] :: front, piece, rfl⟩
      · cases front with
        | nil => exact ⟨[], x :: piece, rfl⟩
        | cons first rest => exact ⟨(x :: first) :: rest, piece, rfl⟩
  obtain ⟨xs, hxs⟩ := List.getLast?_eq_some_iff.1 hlast
  obtain ⟨front, piece, hsplit⟩ := hpieces xs
  refine ⟨(front.filter (· ≠ [])).map String.ofList, String.ofList (piece ++ [c]), ?_, by simp⟩
  rw [words, hxs, hsplit]
  simp

/-! ## Fixed beginnings and ends -/

/-- What stands between a fixed beginning and a fixed end. -/
def between? (front back text : String) : Option String :=
  (text.toList.dropPrefix? front.toList).bind fun rest =>
    (rest.dropSuffix? back.toList).map String.ofList

theorem between?_eq_some_iff {front back text inside : String} :
    between? front back text = some inside ↔ text = front ++ inside ++ back := by
  simp only [between?, Option.bind_eq_some_iff, Option.map_eq_some_iff,
    List.dropPrefix?_eq_some_iff, List.dropSuffix?_eq_some_iff, beq_iff_eq]
  constructor
  · rintro ⟨rest, ⟨_, htext, rfl⟩, cs, ⟨_, rfl, rfl⟩, rfl⟩
    apply String.toList_injective
    simp [htext]
  · rintro rfl
    exact ⟨inside.toList ++ back.toList, ⟨front.toList, by simp, rfl⟩, inside.toList,
      ⟨back.toList, rfl, rfl⟩, by simp⟩

theorem between?_eq_none_iff {front back text : String} :
    between? front back text = none ↔ ∀ inside, text ≠ front ++ inside ++ back := by
  simp only [Option.eq_none_iff_forall_ne_some, ne_eq, between?_eq_some_iff]

theorem append_ne {front back text : String} (h : ¬ back.toList <:+ text.toList) :
    front ++ back ≠ text := by
  rintro rfl
  exact h ⟨front.toList, by simp⟩

/-! ## Lines -/

/-- The characters without a carriage return at their end. -/
def withoutReturn (cs : List Char) : List Char :=
  if cs.getLast? = some '\r' then cs.dropLast else cs

/-- The lines of a text, whichever way they end. What follows the last line feed
is a line, too. -/
def lines (text : String) : List String :=
  (text.toList.splitOn '\n').map fun cs => String.ofList (withoutReturn cs)

/-- The text goes on one line. -/
def Unbroken (text : String) : Prop :=
  ∀ c ∈ text.toList, c ≠ '\n' ∧ c ≠ '\r'

theorem Unbroken.append {left right : String} (hl : Unbroken left) (hr : Unbroken right) :
    Unbroken (left ++ right) := by
  rw [Unbroken, String.toList_append, List.forall_mem_append]
  exact ⟨hl, hr⟩

theorem Unbroken.withoutReturn_eq {text : String} (h : Unbroken text) :
    withoutReturn text.toList = text.toList := by
  have hlast : text.toList.getLast? ≠ some '\r' := by
    intro hr
    exact (h '\r' (List.mem_of_getLast? hr)).2 rfl
  rw [withoutReturn, if_neg hlast]

/-- A text that goes on one line is the first line of what it starts. -/
theorem lines_append_ending {text : String} (h : Unbroken text) (ending : LineEnding)
    (rest : String) : lines (text ++ ending.text ++ rest) = text :: lines rest := by
  have hfeed : ∀ c ∈ text.toList, (c == '\n') = false := by
    intro c hc
    exact beq_eq_false_iff_ne.2 (h c hc).1
  have hlineFeed : lines (text ++ "\n" ++ rest) = text :: lines rest := by
    have hchars : (text ++ "\n" ++ rest).toList = text.toList ++ '\n' :: rest.toList := by simp
    rw [lines, hchars, List.splitOn_eq_splitOnP,
      List.splitOnP_append_cons_of_forall_mem hfeed _ (by decide), List.map_cons,
      h.withoutReturn_eq, String.ofList_toList, ← List.splitOn_eq_splitOnP]
    rfl
  cases ending with
  | lineFeed => exact hlineFeed
  | native => exact hlineFeed
  | carriageReturnLineFeed =>
    have hchars : (text ++ "\r\n" ++ rest).toList =
        (text.toList ++ ['\r']) ++ '\n' :: rest.toList := by simp
    have hfeed' : ∀ c ∈ text.toList ++ ['\r'], (c == '\n') = false := by
      rw [List.forall_mem_append]
      exact ⟨hfeed, by simp⟩
    have hreturn : withoutReturn (text.toList ++ ['\r']) = text.toList := by
      simp [withoutReturn]
    rw [LineEnding.text, lines, hchars, List.splitOn_eq_splitOnP,
      List.splitOnP_append_cons_of_forall_mem hfeed' _ (by decide), List.map_cons, hreturn,
      String.ofList_toList, ← List.splitOn_eq_splitOnP]
    rfl

end Text

/-! ## Lines that are rendered -/

namespace Indentation

/-- Indentation is made of blanks. -/
theorem mem_text {indentation : Indentation} {c : Char} (h : c ∈ indentation.text.toList) :
    c = ' ' ∨ c = '\t' := by
  cases indentation with
  | space size =>
    rw [toList_text_space] at h
    exact Or.inl (List.eq_of_mem_replicate h)
  | tab => exact Or.inr (by simpa [text] using h)

end Indentation

namespace Line

/-- The line as it is shown: with its margin, but without its ending. -/
def shown (config : Config) (line : Line) : String :=
  render config.indentation.text "" line

theorem mem_margin {config : Config} {depth : Nat} {c : Char}
    (h : c ∈ (margin config.indentation.text depth).toList) : c = ' ' ∨ c = '\t' := by
  rw [toList_margin] at h
  obtain ⟨unit, hunit, hc⟩ := List.mem_flatten.1 h
  rw [List.eq_of_mem_replicate hunit] at hc
  exact Indentation.mem_text hc

/-- A shown line is its text after blanks. -/
theorem exists_shown_eq (config : Config) (line : Line) :
    ∃ blanks : String, (∀ c ∈ blanks.toList, c = ' ' ∨ c = '\t') ∧
      line.shown config = blanks ++ line.text := by
  by_cases h : line.text = ""
  · exact ⟨"", by simp, by simp [shown, render, h]⟩
  · exact ⟨margin config.indentation.text line.depth, fun c hc => mem_margin hc,
      by simp [shown, render, h]⟩

/-- A line that is not nested is shown as it is. -/
theorem shown_flat (config : Config) (text : String) : (flat text).shown config = text := by
  by_cases h : text = ""
  · simp [shown, render, flat, h]
  · simp [shown, render, flat, margin, h]

/-- Nesting does not change the words of a line. -/
theorem words_shown (config : Config) (line : Line) :
    Text.words (line.shown config) = Text.words line.text := by
  obtain ⟨blanks, hblanks, hshown⟩ := line.exists_shown_eq config
  rw [hshown]
  refine Text.words_append_of_blank ?_ line.text
  intro c hc
  rcases hblanks c hc with rfl | rfl
  · decide
  · decide

theorem unbroken_shown (config : Config) {line : Line} (h : Text.Unbroken line.text) :
    Text.Unbroken (line.shown config) := by
  obtain ⟨blanks, hblanks, hshown⟩ := line.exists_shown_eq config
  rw [hshown]
  refine Text.Unbroken.append ?_ h
  intro c hc
  rcases hblanks c hc with rfl | rfl
  · decide
  · decide

/-- A rendered line is the shown line and the ending. -/
theorem renderAll_cons (config : Config) (line : Line) (lines : List Line) :
    renderAll config (line :: lines) =
      line.shown config ++ config.lineEnding.text ++ renderAll config lines := by
  by_cases htext : line.text = ""
  · simp [renderAll, shown, render, htext]
  · simp [renderAll, shown, render, htext]

/-- The lines of a rendered text are the lines that were rendered, and the empty rest. -/
theorem lines_renderAll (config : Config) {lines : List Line}
    (h : ∀ line ∈ lines, Text.Unbroken line.text) :
    Text.lines (renderAll config lines) = lines.map (shown config) ++ [""] := by
  induction lines with
  | nil =>
    rw [renderAll_nil, List.map_nil]
    decide
  | cons line lines ih =>
    have hshown : Text.Unbroken (line.shown config) := unbroken_shown config (h line (by simp))
    rw [renderAll_cons, Text.lines_append_ending hshown, ih fun other hother =>
      h other (List.mem_cons_of_mem line hother)]
    rfl

end Line

end TreeHeaders
