import TreeHeaders.Proofs.HeaderClauses
import TreeHeaders.Proofs.Nesting

set_option autoImplicit false

/-!
# The ends of lines

Dividing a text at the configured ending of lines gives the lines in which it was laid out
(`Line.linesAt_renderAll`), and no line of a header ends with a blank: indentation stands in
front of a text only, and every text ends with a sign or a name. With what is known of its
brackets, this is the statement about the contents of a header (`Catalogue.headers_wellNested`).
-/

namespace TreeHeaders

namespace Text

/-! ## Dividing a text -/

/-- The pieces between the occurrences of a separating text, found from the left. The number
counts the characters of an occurrence that are still to be passed over. -/
def divide (sep : List Char) : Nat → List Char → List (List Char)
  | _, [] => [[]]
  | skip + 1, _ :: cs => divide sep skip cs
  | 0, c :: cs =>
    if sep.isPrefixOf (c :: cs) then [] :: divide sep (sep.length - 1) cs
    else consPiece c (divide sep 0 cs)

theorem divide_ne_nil (sep : List Char) (skip : Nat) (cs : List Char) :
    divide sep skip cs ≠ [] := by
  fun_induction divide sep skip cs with
  | case1 => exact List.cons_ne_nil _ _
  | case2 _ _ _ ih => exact ih
  | case3 => exact List.cons_ne_nil _ _
  | case4 c cs _ ih => cases divide sep 0 cs <;> simp [consPiece]

theorem divide_drop (sep : List Char) (skip : Nat) (cs : List Char) :
    divide sep skip cs = divide sep 0 (cs.drop skip) := by
  induction cs generalizing skip with
  | nil => simp [divide]
  | cons c cs ih =>
    cases skip with
    | zero => rfl
    | succ skip => simpa [divide] using ih skip

/-- A separator ends a piece. -/
theorem divide_append_self {sep : List Char} (hsep : sep ≠ []) (rest : List Char) :
    divide sep 0 (sep ++ rest) = [] :: divide sep 0 rest := by
  obtain ⟨first, others, rfl⟩ := List.exists_cons_of_ne_nil hsep
  have hprefix : (first :: others).isPrefixOf (first :: (others ++ rest)) = true := by
    rw [List.isPrefixOf_iff_prefix]
    exact ⟨rest, by simp⟩
  have hdivide : divide (first :: others) 0 (first :: (others ++ rest)) =
      [] :: divide (first :: others) others.length (others ++ rest) := by
    simp [divide, hprefix]
  rw [List.cons_append, hdivide, divide_drop, List.drop_left]

/-- No separator starts within characters that it does not start with. -/
theorem divide_append {first : Char} {others text : List Char} (h : first ∉ text)
    (rest : List Char) :
    divide (first :: others) 0 (text ++ (first :: others) ++ rest) =
      text :: divide (first :: others) 0 rest := by
  induction text with
  | nil => exact divide_append_self (List.cons_ne_nil first others) rest
  | cons c text ih =>
    rw [List.mem_cons, not_or] at h
    obtain ⟨hne, htext⟩ := h
    have hprefix : (first :: others).isPrefixOf (c :: (text ++ (first :: others) ++ rest)) =
        false := by
      simp [List.isPrefixOf, hne]
    rw [List.cons_append, List.cons_append, divide, hprefix, ih htext]
    rfl

/-- Joining undoes dividing. -/
theorem joinPieces_divide {sep : List Char} (hsep : sep ≠ []) (skip : Nat) (cs : List Char) :
    joinPieces sep (divide sep skip cs) = cs.drop skip := by
  fun_induction divide sep skip cs with
  | case1 => simp [joinPieces]
  | case2 _ _ _ ih => exact ih
  | case3 c cs hprefix ih =>
    -- the characters that are passed over are those of the separator after its first one
    obtain ⟨piece, pieces, hpieces⟩ := List.exists_cons_of_ne_nil
      (divide_ne_nil sep (sep.length - 1) cs)
    obtain ⟨first, others, rfl⟩ := List.exists_cons_of_ne_nil hsep
    obtain ⟨rest, hrest⟩ := List.isPrefixOf_iff_prefix.1 hprefix
    obtain ⟨rfl, rfl⟩ := List.cons_eq_cons.1 hrest
    rw [hpieces] at ih ⊢
    simp [joinPieces, ih]
  | case4 c cs _ ih => rw [joinPieces_consPiece, ih]; rfl

/-- The lines of a text that is divided at an ending. What follows the last one
is a line, too. -/
def linesAt (ending text : String) : List String :=
  (divide ending.toList 0 text.toList).map String.ofList

theorem joinPieces_eq_intercalate (sep : List Char) (pieces : List (List Char)) :
    joinPieces sep pieces = sep.intercalate pieces := by
  fun_induction joinPieces sep pieces with
  | case1 => simp
  | case2 piece => simp
  | case3 piece next pieces ih => simp [ih]

/-- The lines with the ending between each two are the text. -/
theorem intercalate_linesAt {ending : String} (h : ending ≠ "") (text : String) :
    ending.intercalate (linesAt ending text) = text := by
  have hending : ending.toList ≠ [] := fun hnil => h (String.toList_eq_nil_iff.1 hnil)
  apply String.toList_injective
  have hjoin := joinPieces_divide hending 0 text.toList
  rw [joinPieces_eq_intercalate, List.drop_zero] at hjoin
  simpa [linesAt, Function.comp_def] using hjoin

theorem linesAt_append {text : String} (h : Unbroken text) (ending : LineEnding) (rest : String) :
    linesAt ending.text (text ++ ending.text ++ rest) = text :: linesAt ending.text rest := by
  have hfeed : '\n' ∉ text.toList := fun hc => (h '\n' hc).1 rfl
  have hreturn : '\r' ∉ text.toList := fun hc => (h '\r' hc).2 rfl
  have hdivide : divide ending.text.toList 0 (text.toList ++ ending.text.toList ++ rest.toList) =
      text.toList :: divide ending.text.toList 0 rest.toList := by
    cases ending with
    | lineFeed => exact divide_append hfeed rest.toList
    | carriageReturnLineFeed => exact divide_append hreturn rest.toList
    | native => exact divide_append hfeed rest.toList
  rw [linesAt, String.toList_append, String.toList_append, hdivide, List.map_cons,
    String.ofList_toList]
  rfl

end Text

open Text

/-! ## Lines that do not end with a blank -/

namespace Line

variable {line : Line}

/-- Does the text end with something other than a blank? -/
def endsFirm (text : String) : Bool :=
  text.toList.getLast?.any fun c => !c.isWhitespace

theorem endsFirm_of_isWord {text : String} (h : IsWord text) : endsFirm text = true := by
  unfold endsFirm
  cases hlast : text.toList.getLast? with
  | none =>
    have hempty : text = "" := String.toList_eq_nil_iff.1 (List.getLast?_eq_none_iff.1 hlast)
    exact absurd hempty h.ne_empty
  | some c => simp [h.not_isWhitespace c (List.mem_of_getLast? hlast)]

/-- The line is empty or ends with something other than a blank. -/
def Firm (line : Line) : Prop :=
  line.text = "" ∨ endsFirm line.text = true

instance : DecidablePred Firm :=
  fun _ => inferInstanceAs (Decidable (_ ∨ _))

theorem firm_of_append {front back : String} (h : endsFirm back = true)
    (htext : line.text = front ++ back) : line.Firm :=
  Or.inr (htext ▸ any_getLast?_append h front)

theorem firm_blank : blank.Firm :=
  Or.inl rfl

theorem firm_indented {lines : List Line} :
    (∀ line ∈ indented lines, line.Firm) ↔ ∀ line ∈ lines, line.Firm :=
  List.forall_mem_map

/-- Nothing is put after the text of a line, and nothing before it if it is empty. -/
theorem Firm.getLast?_shown (h : line.Firm) (config : Config) :
    (line.shown config).toList.getLast? ≠ some ' ' ∧
      (line.shown config).toList.getLast? ≠ some '\t' := by
  rcases h with hempty | hfirm
  · have hshown : line.shown config = "" := by
      simp [shown, render, hempty]
    simp [hshown]
  · obtain ⟨blanks, -, hshown⟩ := line.exists_shown_eq config
    have hends : endsFirm (line.shown config) = true := hshown ▸ any_getLast?_append hfirm blanks
    unfold endsFirm at hends
    constructor
    · intro hlast
      rw [hlast] at hends
      exact absurd hends (by decide)
    · intro hlast
      rw [hlast] at hends
      exact absurd hends (by decide)

/-- The lines of a rendered text are the lines that were rendered, and the empty rest. -/
theorem linesAt_renderAll (config : Config) {lines : List Line}
    (h : ∀ line ∈ lines, Unbroken line.text) :
    linesAt config.lineEnding.text (renderAll config lines) =
      lines.map (shown config) ++ [""] := by
  induction lines with
  | nil =>
    rw [renderAll_nil]
    rfl
  | cons line lines ih =>
    have hshown : Unbroken (line.shown config) := unbroken_shown config (h line (by simp))
    rw [renderAll_cons, linesAt_append hshown, ih fun other hother =>
      h other (List.mem_cons_of_mem line hother)]
    rfl

end Line

open Line

/-! ## Lines of a header -/

namespace Visitor

variable {visitor : Visitor}

theorem firm_enclosed (h : IsWord visitor.namespaceName) {body : List Line}
    (hbody : ∀ line ∈ body, line.Firm) : ∀ line ∈ visitor.enclosed body, line.Firm := by
  have hbrace : endsFirm " \x7b" = true := by decide
  simp only [enclosed, List.forall_mem_append, List.forall_mem_cons, ↓List.forall_mem_singleton]
  exact ⟨⟨⟨firm_of_append hbrace rfl, firm_blank⟩, hbody⟩, firm_blank,
    firm_of_append (endsFirm_of_isWord h) rfl⟩

theorem firm_declarationLines (h : IsWord visitor.namespaceName) :
    ∀ line ∈ visitor.declarationLines, line.Firm :=
  firm_enclosed h (by decide)

theorem firm_lines (h : IsWord visitor.namespaceName) : ∀ line ∈ visitor.lines, line.Firm := by
  have hmethods : ∀ line ∈ visitor.methods.map methodLine, line.Firm := by
    rw [List.forall_mem_map]
    exact fun method _ => firm_of_append (by decide : endsFirm " &) = 0;" = true) rfl
  refine firm_enclosed h ?_
  simp only [List.forall_mem_append, firm_indented]
  exact ⟨⟨by decide, hmethods, by decide⟩, by decide⟩

end Visitor

namespace Node

theorem firm_memberLines (node : Node) : ∀ line ∈ node.memberLines, line.Firm := by
  have hsemicolon : endsFirm ";" = true := by decide
  unfold memberLines
  split
  · simp
  · rw [List.forall_mem_append, List.forall_mem_map, List.forall_mem_singleton]
    exact ⟨fun member _ => firm_of_append hsemicolon rfl, firm_blank⟩

theorem firm_initialiserLines (leader : String) (parameters : List Parameter) :
    ∀ line ∈ Parameter.initialiserLines leader parameters, line.Firm := by
  have hbraces : endsFirm " \x7b\x7d" = true := by decide
  have hcomma : endsFirm "," = true := by decide
  fun_induction Parameter.initialiserLines leader parameters with
  | case1 => simp
  | case2 => exact List.forall_mem_singleton.2 (firm_of_append hbraces rfl)
  | case3 _ _ _ _ ih => exact List.forall_mem_cons.2 ⟨firm_of_append hcomma rfl, ih⟩

theorem firm_constructorLines (node : Node) : ∀ line ∈ node.constructorLines, line.Firm := by
  have hbraces : endsFirm "() \x7b\x7d" = true := by decide
  have hparen : endsFirm ")" = true := by decide
  unfold constructorLines
  split
  · exact List.forall_mem_singleton.2 (firm_of_append hbraces rfl)
  · exact List.forall_mem_cons.2 ⟨firm_of_append hparen rfl, firm_initialiserLines _ _⟩

theorem firm_entryPointLines (entry : EntryPoint) : ∀ line ∈ entryPointLines entry, line.Firm := by
  have hopening : endsFirm " &v) override \x7b" = true := by decide
  have hreturn : endsFirm "(*this);" = true := by decide
  simp only [entryPointLines, List.forall_mem_cons, ↓List.forall_mem_singleton]
  exact ⟨firm_blank, firm_of_append hopening rfl, firm_of_append hreturn rfl, by decide⟩

theorem firm_lines (node : Node) : ∀ line ∈ node.lines, line.Firm := by
  have hbrace : endsFirm " \x7b" = true := by decide
  have hentries : ∀ line ∈ node.entryPoints.flatMap entryPointLines, line.Firm := by
    rw [List.forall_mem_flatMap]
    exact fun entry _ => firm_entryPointLines entry
  simp only [lines, List.forall_mem_append, List.forall_mem_singleton, firm_indented]
  exact ⟨⟨firm_of_append hbrace rfl, ⟨firm_memberLines node, firm_constructorLines node⟩,
    hentries⟩, by decide⟩

end Node

namespace Family

variable {family : Family} {config : Config}

theorem firm_resultLines (family : Family) : ∀ line ∈ family.resultLines, line.Firm := by
  have hend : endsFirm ">;" = true := by decide
  unfold resultLines
  cases family.contract with
  | effect => simp
  | value result =>
    simp only [List.forall_mem_cons, ↓List.forall_mem_singleton]
    exact ⟨firm_of_append hend rfl, firm_blank⟩

theorem firm_baseLines (family : Family) : ∀ line ∈ family.baseLines, line.Firm := by
  have hbrace : endsFirm " \x7b" = true := by decide
  have hentry : endsFirm " &) = 0;" = true := by decide
  have hdestructor : endsFirm "() = default;" = true := by decide
  simp only [baseLines, List.forall_mem_append, List.forall_mem_singleton, firm_indented,
    List.forall_mem_map]
  exact ⟨⟨firm_of_append hbrace rfl, fun result _ => firm_of_append hentry rfl,
    firm_of_append hdestructor rfl⟩, by decide⟩

theorem firm_bodyLines (h : family.WellNamed) : ∀ line ∈ family.bodyLines, line.Firm := by
  have hnamespace : IsWord family.visitor.namespaceName :=
    Naming.isWord_visitorNamespace h.basename
  have hforward : ∀ line ∈ family.forwardLines, line.Firm :=
    List.forall_mem_map.2 fun node _ => firm_of_append (by decide : endsFirm ";" = true) rfl
  have halias : ∀ line ∈ family.aliasLines, line.Firm := by
    have hend : endsFirm ">;" = true := by decide
    simp only [aliasLines, List.forall_mem_cons, ↓List.forall_mem_singleton]
    exact ⟨firm_of_append hend rfl, firm_of_append hend rfl⟩
  have hnodes : ∀ line ∈ family.nodeLines, line.Firm := by
    simp only [nodeLines, List.forall_mem_flatMap, List.forall_mem_append,
      List.forall_mem_singleton]
    exact fun node _ => ⟨Node.firm_lines node, firm_blank⟩
  simp only [bodyLines, List.forall_mem_append, List.forall_mem_singleton, firm_blank, and_true]
  exact ⟨⟨⟨⟨⟨⟨firm_resultLines family, Visitor.firm_declarationLines hnamespace⟩, hforward⟩,
    firm_baseLines family⟩, halias⟩, Visitor.firm_lines hnamespace⟩, hnodes⟩

/-- No line of a header ends with a blank before it is rendered. -/
theorem firm_headerLines (h : family.WellNamed) (hc : config.Accepted) :
    ∀ line ∈ family.headerLines config, line.Firm := by
  have hguard : endsFirm (Naming.guard config family.basename) = true :=
    endsFirm_of_isWord (isWord_of_isPart (Naming.guard_ne_empty config family.basename)
      fun c hmem => Or.inl (Naming.isPart_guard config family.basename c hmem))
  have hbrace : endsFirm " \x7b" = true := by decide
  have hlocal : ∀ line ∈ family.localIncludeLines config, line.Firm := by
    intro line hline
    rcases mem_localIncludeLines h hline with rfl | ⟨name, -, rfl⟩
    · exact firm_blank
    · exact firm_of_append (by decide : endsFirm "\"" = true) rfl
  have hbefore : ∀ line ∈ family.linesBeforeIncludes config, line.Firm := by
    simp only [linesBeforeIncludes, List.forall_mem_cons, ↓List.forall_mem_singleton]
    exact ⟨by decide, firm_of_append hguard rfl, firm_of_append hguard rfl, firm_blank⟩
  have hafter : ∀ line ∈ family.linesAfterIncludes config, line.Firm := by
    simp only [linesAfterIncludes, List.forall_mem_append, List.forall_mem_cons,
      ↓List.forall_mem_singleton]
    exact ⟨⟨⟨⟨by decide, firm_blank⟩, firm_of_append hbrace rfl, firm_blank⟩, firm_bodyLines h⟩,
      firm_of_append (endsFirm_of_isWord hc.isWord_namespaceName) rfl, firm_blank,
      firm_of_append hguard rfl⟩
  rw [headerLines_eq, List.forall_mem_append, List.forall_mem_append]
  exact ⟨⟨hbefore, hlocal⟩, hafter⟩

end Family

namespace Catalogue

/-- The brackets of every header are nested, and none of its lines ends with a blank. The lines
are what the configured ending divides the contents into: put together with the ending, they are
the contents, and none of them is broken. -/
theorem headers_wellNested {ds : List FamilyDeclaration} {c : Catalogue} (h : load ds = .ok c)
    {config : Config} (hc : config.Accepted) {header : Header} (hh : header ∈ c.headers config) :
    Nested (brackets header.contents) ∧
      config.lineEnding.text.intercalate (linesAt config.lineEnding.text header.contents) =
        header.contents ∧
      ∀ line ∈ linesAt config.lineEnding.text header.contents, Unbroken line ∧
        line.toList.getLast? ≠ some ' ' ∧ line.toList.getLast? ≠ some '\t' := by
  obtain ⟨family, hf, rfl⟩ := List.mem_map.1 hh
  have hnamed : family.WellNamed := wellNamed_of_mem h hf
  have hending : config.lineEnding.text ≠ "" := by
    cases config.lineEnding <;> decide
  refine ⟨Family.nested_contents hnamed hc, intercalate_linesAt hending _, ?_⟩
  have hunbroken := Family.unbroken_headerLines hnamed hc
  rw [Family.header, linesAt_renderAll config hunbroken, List.forall_mem_append,
    List.forall_mem_map, List.forall_mem_singleton]
  refine ⟨fun line hline => ⟨unbroken_shown config (hunbroken line hline), ?_⟩, by simp [Unbroken]⟩
  exact (Family.firm_headerLines hnamed hc line hline).getLast?_shown config

end Catalogue

/-- A layout of headers with tabs and with line endings of two characters. -/
def Lox.tabbed : Config where
  namespaceName := "lox::ast"
  extension := "hpp"
  indentation := .tab
  lineEnding := .carriageReturnLineFeed

/-- The header of the statements of Lox, in that layout. -/
theorem Lox.statements_wellNested :
    ∃ c, Catalogue.load declarations = .ok c ∧ tabbed.Accepted ∧
      ∃ header ∈ c.headers tabbed, header.fileName = "Stmt.hpp" ∧
        Nested (brackets header.contents) ∧
        ∀ line ∈ linesAt "\r\n" header.contents,
          line.toList.getLast? ≠ some ' ' ∧ line.toList.getLast? ≠ some '\t' := by
  obtain ⟨c, hc, family, hfamily, hdenotes⟩ := Catalogue.exists_denotes_of_isOk catalogue_isOk
    (show declarations[1]? = some statements from rfl)
  have haccepted : tabbed.Accepted := ⟨by decide, by decide⟩
  have hheader : family.header tabbed ∈ c.headers tabbed :=
    List.mem_map_of_mem (List.mem_of_getElem? hfamily)
  have hfile : (family.header tabbed).fileName = "Stmt.hpp" := by
    simp [Family.header, Naming.headerFile, hdenotes.basename, statements, tabbed]
  obtain ⟨hnested, -, hlines⟩ := Catalogue.headers_wellNested hc haccepted hheader
  exact ⟨c, hc, haccepted, _, hheader, hfile, hnested, fun line hline => (hlines line hline).2⟩

end TreeHeaders
