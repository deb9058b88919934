import TreeHeaders.Config

set_option autoImplicit false

/-!
# Lines

A header is a list of lines, each with its depth of nesting. Only rendering looks at the
configured indentation and line ending.
-/

namespace TreeHeaders

/-- A line of a header: how deep it is nested, and its text. -/
structure Line where
  depth : Nat := 0
  text : String
  deriving DecidableEq, Repr, Inhabited

namespace Line

/-- An empty line. -/
def blank : Line :=
  { text := "" }

/-- A line that is not nested. -/
def flat (text : String) : Line :=
  { text }

/-- The line one level deeper. -/
def deeper (line : Line) : Line :=
  { line with depth := line.depth + 1 }

/-- A line that continues the one before it: two levels deeper, without opening a block. -/
def continued (text : String) : Line :=
  { depth := 2, text }

/-- The lines one level deeper. -/
def indented (lines : List Line) : List Line :=
  lines.map deeper

/-- The unit repeated once for every level. -/
def margin (unit : String) (depth : Nat) : String :=
  String.join (List.replicate depth unit)

/-- The text of the line with its margin and its ending. Empty lines have no margin. -/
def render (unit ending : String) (line : Line) : String :=
  if line.text = "" then ending else margin unit line.depth ++ line.text ++ ending

/-- The text of all lines. -/
def renderAll (config : Config) (lines : List Line) : String :=
  let unit := config.indentation.text
  let ending := config.lineEnding.text
  String.join (lines.map (render unit ending))

@[simp]
theorem toList_margin (unit : String) (depth : Nat) :
    (margin unit depth).toList = (List.replicate depth unit.toList).flatten := by
  simp [margin, List.flatMap, List.map_replicate]

/-- The characters of a text are those of its lines, one after the other. -/
theorem toList_renderAll (config : Config) (lines : List Line) :
    (renderAll config lines).toList =
      lines.flatMap fun line =>
        (render config.indentation.text config.lineEnding.text line).toList := by
  simp [renderAll, List.flatMap_map]

@[simp]
theorem renderAll_nil (config : Config) : renderAll config [] = "" := by
  simp [renderAll]

/-- Lines are rendered one after the other, whatever stands around them. -/
theorem renderAll_append (config : Config) (front back : List Line) :
    renderAll config (front ++ back) = renderAll config front ++ renderAll config back := by
  simp [renderAll]

end Line

end TreeHeaders
