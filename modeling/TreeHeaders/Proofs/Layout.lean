import TreeHeaders.Proofs.HeaderLines
import Mathlib.Data.List.Basic

set_option autoImplicit false

/-!
# Layout

The indentation and the line ending have no say in what a header consists of: its lines, their
depths and their texts are the same for all of them. The texts have neither tabs nor line breaks
in them, so a header that is indented by tabs shows its whole layout, and every other layout is
that one with the tabs and the line feeds replaced (`Catalogue.headers_relaid`).

This holds for every namespace and extension without such characters, whether or not the
command line accepts them.
-/

namespace TreeHeaders

/-! ## Texts without layout -/

namespace Text

/-- The text has neither tabs nor line breaks in it. -/
def LayoutFree (text : String) : Prop :=
  ∀ c ∈ text.toList, c ≠ '\t' ∧ c ≠ '\r' ∧ c ≠ '\n'

instance (text : String) : Decidable (LayoutFree text) :=
  decidable_of_iff ((text.toList.all fun c => c != '\t' && c != '\r' && c != '\n') = true) <| by
    simp [LayoutFree, and_assoc]

@[simp]
theorem layoutFree_append {left right : String} :
    LayoutFree (left ++ right) ↔ LayoutFree left ∧ LayoutFree right := by
  simp only [LayoutFree, String.toList_append, List.forall_mem_append]

theorem Inked.layoutFree {text : String} (h : Inked text) : LayoutFree text :=
  fun _ hc => ⟨h.ne_of_mem hc (by decide), h.ne_of_mem hc (by decide), h.ne_of_mem hc (by decide)⟩

/-- What stands for a character in another layout: spaces for a tab, the ending
for a line feed. -/
def relaidChar (size : Nat) (ending : LineEnding) (c : Char) : List Char :=
  if c = '\t' then List.replicate size ' '
  else if c = '\n' then ending.text.toList
  else [c]

/-- The text with every tab replaced by that many spaces and every line feed by the ending. -/
def relaid (size : Nat) (ending : LineEnding) (text : String) : String :=
  String.ofList (text.toList.flatMap (relaidChar size ending))

theorem relaid_append (size : Nat) (ending : LineEnding) (left right : String) :
    relaid size ending (left ++ right) = relaid size ending left ++ relaid size ending right := by
  apply String.toList_injective
  simp [relaid]

theorem LayoutFree.relaid_eq {text : String} (h : LayoutFree text) (size : Nat)
    (ending : LineEnding) : relaid size ending text = text := by
  have hchars : text.toList.flatMap (relaidChar size ending) =
      text.toList.flatMap fun c => [c] := by
    refine List.flatMap_congr fun c hc => ?_
    obtain ⟨htab, -, hfeed⟩ := h c hc
    rw [relaidChar, if_neg htab, if_neg hfeed]
  apply String.toList_injective
  rw [relaid, String.toList_ofList, hchars]
  simp

theorem relaid_lineFeed (size : Nat) (ending : LineEnding) :
    relaid size ending LineEnding.lineFeed.text = ending.text := by
  apply String.toList_injective
  simp [relaid, LineEnding.text, relaidChar]

end Text

open Text

/-! ## Lines -/

namespace Line

/-- Tabs in a margin are replaced level by level. -/
theorem relaid_margin (size : Nat) (ending : LineEnding) (depth : Nat) :
    relaid size ending (margin Indentation.tab.text depth) =
      margin (Indentation.space size).text depth := by
  have htab : relaid size ending Indentation.tab.text = (Indentation.space size).text := by
    apply String.toList_injective
    simp [relaid, Indentation.text, relaidChar]
  induction depth with
  | zero => exact LayoutFree.relaid_eq (by simp [LayoutFree, margin]) size ending
  | succ depth ih =>
    have hsucc : ∀ unit : String, margin unit (depth + 1) = unit ++ margin unit depth := by
      intro unit
      simp [margin, List.replicate_succ]
    rw [hsucc, hsucc, relaid_append, htab, ih]

theorem relaid_render {line : Line} (h : LayoutFree line.text) (size : Nat) (ending : LineEnding) :
    relaid size ending (render Indentation.tab.text LineEnding.lineFeed.text line) =
      render (Indentation.space size).text ending.text line := by
  unfold render
  split
  · exact relaid_lineFeed size ending
  · rw [relaid_append, relaid_append, relaid_margin, h.relaid_eq, relaid_lineFeed]

/-- The text of lines is laid out anew line by line. -/
theorem relaid_renderAll {config : Config} (htab : config.indentation = .tab)
    (hfeed : config.lineEnding = .lineFeed) {lines : List Line}
    (h : ∀ line ∈ lines, LayoutFree line.text) (size : Nat) (ending : LineEnding) :
    relaid size ending (renderAll config lines) =
      renderAll { config with indentation := .space size, lineEnding := ending } lines := by
  induction lines with
  | nil => exact LayoutFree.relaid_eq (by simp [LayoutFree]) size ending
  | cons line lines ih =>
    obtain ⟨hline, hlines⟩ := List.forall_mem_cons.1 h
    have hcons : ∀ other : Config, renderAll other (line :: lines) =
        render other.indentation.text other.lineEnding.text line ++ renderAll other lines := by
      intro other
      simp [renderAll]
    rw [hcons, hcons, relaid_append, ih hlines, htab, hfeed, relaid_render hline]

/-- The line, where an empty one is not nested. Nesting does not show in it. -/
def settled (line : Line) : Line :=
  if line.text = "" then blank else line

theorem render_eq_settled (unit ending : String) (line : Line) :
    render unit ending line = margin unit line.settled.depth ++ line.settled.text ++ ending := by
  unfold render settled
  split
  · simp [blank, margin]
  · rfl

theorem layoutFree_settled {line : Line} (h : LayoutFree line.text) :
    LayoutFree line.settled.text ∧ (line.settled.text = "" → line.settled.depth = 0) := by
  unfold settled
  split
  · exact ⟨by decide, fun _ => rfl⟩
  · next hne => exact ⟨h, fun hempty => absurd hempty hne⟩

end Line

/-! ## Headers -/

namespace Family

variable {family : Family} {config : Config}

/-- The lines of a header do not depend on the layout. -/
theorem headerLines_relaid (family : Family) (config : Config) (indentation : Indentation)
    (lineEnding : LineEnding) :
    family.headerLines { config with indentation, lineEnding } = family.headerLines config :=
  rfl

theorem layoutFree_localIncludeLines (h : family.WellNamed) (he : LayoutFree config.extension) :
    ∀ line ∈ family.localIncludeLines config, LayoutFree line.text := by
  intro line hline
  rcases mem_localIncludeLines h hline with rfl | ⟨name, hname, rfl⟩
  · decide
  · have hfree : LayoutFree name := (inked_of_isIdentifier hname).layoutFree
    simp +decide [includeLine, Naming.headerFile, hfree, he]

/-- The lines of a header have no layout in their texts. -/
theorem layoutFree_headerLines (h : family.WellNamed) (hn : LayoutFree config.namespaceName)
    (he : LayoutFree config.extension) :
    ∀ line ∈ family.headerLines config, LayoutFree line.text := by
  have hbefore : ∀ line ∈ family.linesBeforeIncludes config, LayoutFree line.text :=
    fun line hline => (allInked_linesBeforeIncludes family config line hline).layoutFree
  have hbody : ∀ line ∈ family.bodyLines, LayoutFree line.text :=
    fun line hline => (allInked_bodyLines h line hline).layoutFree
  have hstandard : ∀ line ∈ standardIncludeLines, LayoutFree line.text := by
    decide
  have hguard : LayoutFree (Naming.guard config family.basename) :=
    (Naming.inked_guard config family.basename).layoutFree
  have hafter : ∀ line ∈ family.linesAfterIncludes config, LayoutFree line.text := by
    have hnamespace : LayoutFree ("namespace " ++ config.namespaceName ++ " \x7b") ∧
        LayoutFree ("\x7d // namespace " ++ config.namespaceName) := by
      simp +decide [hn]
    have hend : LayoutFree ("#endif // " ++ Naming.guard config family.basename) := by
      simp +decide [hguard]
    simp only [linesAfterIncludes, List.forall_mem_append, List.forall_mem_cons, List.not_mem_nil,
      IsEmpty.forall_iff, implies_true, and_true]
    exact ⟨⟨⟨⟨hstandard, by decide⟩, hnamespace.1, by decide⟩, hbody⟩, hnamespace.2, by decide,
      hend⟩
  rw [headerLines_eq, List.forall_mem_append, List.forall_mem_append]
  exact ⟨⟨hbefore, layoutFree_localIncludeLines h he⟩, hafter⟩

/-- A header in another layout is the header in tabs and line feeds with these replaced. -/
theorem header_relaid (h : family.WellNamed) (hn : LayoutFree config.namespaceName)
    (he : LayoutFree config.extension) (size : Nat) (ending : LineEnding) :
    family.header { config with indentation := .space size, lineEnding := ending } =
      let plain := family.header { config with indentation := .tab, lineEnding := .lineFeed }
      { plain with contents := relaid size ending plain.contents } := by
  have hlines := layoutFree_headerLines h hn he
  have hcontents :
      relaid size ending
        (Line.renderAll { config with indentation := .tab, lineEnding := .lineFeed }
          (family.headerLines config)) =
      Line.renderAll { config with indentation := .space size, lineEnding := ending }
        (family.headerLines config) :=
    Line.relaid_renderAll rfl rfl hlines size ending
  simp only [header, headerLines_relaid, hcontents]
  rfl

/-- Each line of a header is its margin, which is made of the unit of indentation, its
text and the line ending. -/
theorem contents_eq_join (family : Family) (config : Config) (indentation : Indentation)
    (lineEnding : LineEnding) :
    (family.header { config with indentation, lineEnding }).contents =
      String.join (((family.headerLines config).map Line.settled).map fun line =>
        Line.margin indentation.text line.depth ++ line.text ++ lineEnding.text) := by
  simp only [header, headerLines_relaid, Line.renderAll, List.map_map]
  congr 1
  refine List.map_congr_left fun line _ => ?_
  exact Line.render_eq_settled indentation.text lineEnding.text line

end Family

/-- With spaces for the indentation and any line ending, headers are those in tabs and
line feeds, but for their contents, in which every tab is replaced by the spaces and every
line feed by the ending. So it is for the parts of each header: whatever the layout, the
header consists of the lines that the family lays out, each of which is the unit of
indentation once for every level, a text without tabs and line breaks, and the line
ending; empty lines are not indented. -/
theorem Catalogue.headers_relaid {ds : List FamilyDeclaration} {c : Catalogue}
    (h : load ds = .ok c) {config : Config} (hn : LayoutFree config.namespaceName)
    (he : LayoutFree config.extension) (size : Nat) (ending : LineEnding) :
    c.headers { config with indentation := .space size, lineEnding := ending } =
        (c.headers { config with indentation := .tab, lineEnding := .lineFeed }).map
          (fun header => { header with contents := relaid size ending header.contents }) ∧
      ∀ family ∈ c.families,
        (∀ line ∈ (family.headerLines config).map Line.settled,
          LayoutFree line.text ∧ (line.text = "" → line.depth = 0)) ∧
          ∀ indentation lineEnding,
            (family.header { config with indentation, lineEnding }).contents =
              String.join (((family.headerLines config).map Line.settled).map fun line =>
                Line.margin indentation.text line.depth ++ line.text ++ lineEnding.text) := by
  constructor
  · simp only [headers, List.map_map]
    refine List.map_congr_left fun family hfamily => ?_
    exact Family.header_relaid (wellNamed_of_mem h hfamily) hn he size ending
  · intro family hfamily
    refine ⟨?_, family.contents_eq_join config⟩
    intro line hline
    obtain ⟨line, hmem, rfl⟩ := List.mem_map.1 hline
    exact Line.layoutFree_settled
      (Family.layoutFree_headerLines (wellNamed_of_mem h hfamily) hn he line hmem)

/-- A namespace that the command line refuses. -/
def newLox : Config where
  namespaceName := "new lox"

/-- The headers of Lox in it, without indentation and with the line endings of
another system. -/
theorem Lox.headers_without_indentation :
    ∃ c, Catalogue.load declarations = .ok c ∧ LayoutFree newLox.namespaceName ∧
      LayoutFree newLox.extension ∧
      c.headers { newLox with indentation := .space 0, lineEnding := .carriageReturnLineFeed } =
        (c.headers { newLox with indentation := .tab, lineEnding := .lineFeed }).map
          (fun header =>
            { header with contents := relaid 0 .carriageReturnLineFeed header.contents }) := by
  obtain ⟨c, hload, -⟩ := Catalogue.exists_load_of_isOk catalogue_isOk
  have hnamespace : LayoutFree newLox.namespaceName := by decide
  have hextension : LayoutFree newLox.extension := by decide
  have hrelaid := Catalogue.headers_relaid hload hnamespace hextension 0 .carriageReturnLineFeed
  exact ⟨c, hload, hnamespace, hextension, hrelaid.1⟩

end TreeHeaders
