import TreeHeaders.Proofs.HeaderLayout
import Mathlib.Data.List.Nodup

set_option autoImplicit false

/-!
# Constructors

A node is made from one value for each field of its variant. Members, parameters and
initialisers are written one apart from the other, and what the first and the last initialiser
look like depends on how many there are; `Catalogue.constructors_follow_fields` says of each
position that what stands there belongs to the field at that position, in the node and in the
lines of the text of the header.
-/

namespace TreeHeaders

open Line

/-! ## How fields are passed -/

theorem FieldType.isOwned_eq_false_iff {type : FieldType} :
    type.isOwned = false ↔ (∃ p, type = .primitive p) ∨ type = .token := by
  cases type with
  | primitive p => simp [isOwned]
  | token => simp [isOwned]
  | child => simp [isOwned]
  | foreignChild family => simp [isOwned]
  | children => simp [isOwned]

namespace Variant

variable {variant : Variant} {field : Field}

theorem isSoleList_iff (hf : field ∈ variant.fields) (ht : field.type = .children) :
    variant.isSoleList = true ↔ variant.fields.length = 1 := by
  unfold isSoleList
  split
  · next only hfields =>
    rw [hfields, List.mem_singleton] at hf
    simp [hfields, ← hf, ht]
  · next hmany =>
    simp only [Bool.false_eq_true, false_iff, List.length_eq_one_iff, not_exists]
    exact hmany

/-- A list is passed as a whole exactly when it is the only field. -/
theorem passing_eq_moveWhole_iff (hf : field ∈ variant.fields) :
    variant.passing field = .moveWhole ↔ variant.fields.length = 1 ∧ field.type = .children := by
  have hsole : field.type = .children ∧ variant.isSoleList = true ↔
      variant.fields.length = 1 ∧ field.type = .children := by
    constructor
    · rintro ⟨ht, hs⟩
      exact ⟨(isSoleList_iff hf ht).1 hs, ht⟩
    · rintro ⟨hlength, ht⟩
      exact ⟨ht, (isSoleList_iff hf ht).2 hlength⟩
  unfold passing
  split
  · next hwhole => simpa using hsole.1 hwhole
  · next hwhole =>
    rw [hsole] at hwhole
    split
    · simpa using hwhole
    · simpa using hwhole

/-- Values are copied, and nothing else is. -/
theorem passing_eq_copy_iff (variant : Variant) (field : Field) :
    variant.passing field = .copy ↔ (∃ p, field.type = .primitive p) ∨ field.type = .token := by
  rw [← FieldType.isOwned_eq_false_iff]
  unfold passing
  split
  · next hwhole => simp [hwhole.1, FieldType.isOwned]
  · split
    · next howned => simp [howned]
    · next howned => simpa using howned

end Variant

theorem Naming.member_injective : Function.Injective member := by
  intro left right h
  have hchars := congrArg String.toList h
  simp only [member, String.toList_append, List.append_left_inj] at hchars
  exact String.toList_injective hchars

/-- The member and the parameter are the ones for the field of the variant. -/
structure Field.IsTaken (field : Field) (family : Family) (variant : Variant) (member : Member)
    (parameter : Parameter) : Prop where
  member_name : member.name = field.name ++ "_"
  member_type : member.type = Naming.fieldType family.basename field.type
  parameter_name : parameter.name = field.name
  parameter_type : parameter.type = member.type
  /-- the parameter initialises the member -/
  initialises : parameter.member = member.name
  copy_iff : parameter.passing = .copy ↔ (∃ p, field.type = .primitive p) ∨ field.type = .token
  moveWhole_iff : parameter.passing = .moveWhole ↔
    variant.fields.length = 1 ∧ field.type = .children
  move_iff : parameter.passing = .move ↔
    ¬ ((∃ p, field.type = .primitive p) ∨ field.type = .token) ∧
      ¬ (variant.fields.length = 1 ∧ field.type = .children)

theorem Family.isTaken (family : Family) {variant : Variant} {field : Field}
    (hf : field ∈ variant.fields) :
    field.IsTaken family variant (family.member field) (family.parameter variant field) := by
  have hcopy := Variant.passing_eq_copy_iff variant field
  have hwhole := Variant.passing_eq_moveWhole_iff hf
  refine ⟨rfl, rfl, rfl, rfl, rfl, hcopy, hwhole, ?_⟩
  rw [← hcopy, ← hwhole]
  change variant.passing field = .move ↔ _
  cases variant.passing field <;> decide

/-! ## The lines of a constructor -/

namespace Parameter

/-- A parameter is declared by its type and its name, a whole list as an rvalue reference. -/
theorem declaration_eq (parameter : Parameter) :
    parameter.declaration =
      parameter.type ++ (if parameter.passing = .moveWhole then " &&" else " ") ++
        parameter.name := by
  unfold declaration
  cases parameter.passing with
  | copy => rfl
  | move => rfl
  | moveWhole => rfl

theorem initialiser_eq (parameter : Parameter) :
    parameter.initialiser =
      if parameter.passing = .copy then parameter.member ++ "(" ++ parameter.name ++ ")"
      else parameter.member ++ "(std::move(" ++ parameter.name ++ "))" := by
  unfold initialiser
  cases parameter.passing with
  | copy => rfl
  | move => rfl
  | moveWhole => rfl

theorem length_initialiserLines (leader : String) (parameters : List Parameter) :
    (initialiserLines leader parameters).length = parameters.length := by
  fun_induction initialiserLines leader parameters with
  | case1 => rfl
  | case2 => rfl
  | case3 leader parameter rest _ ih => rw [List.length_cons, List.length_cons, ih]

/-- The initialiser at a position: only the first one has the leader of the list, and only the
last one ends the constructor. -/
theorem getElem?_initialiserLines (leader : String) (parameters : List Parameter) (i : Nat) :
    (initialiserLines leader parameters)[i]? = parameters[i]?.map fun parameter =>
      continued ((if i = 0 then leader else "  ") ++ parameter.initialiser ++
        (if i + 1 = parameters.length then " \x7b\x7d" else ",")) := by
  fun_induction initialiserLines leader parameters generalizing i with
  | case1 => simp
  | case2 leader parameter =>
    cases i with
    | zero => simp
    | succ i => simp
  | case3 leader parameter rest hmore ih =>
    cases i with
    | zero =>
      have hne : rest ≠ [] := hmore
      simp [hne]
    | succ i => simp [ih]

end Parameter

/-- The lines make up the constructor of a node of the name, with the parameters. -/
structure Node.IsConstructor (name : String) (parameters : List Parameter) (lines : List Line) :
    Prop where
  /-- without parameters there is one line -/
  of_nil : parameters = [] → lines = [flat (name ++ "() \x7b\x7d")]
  /-- the first line declares the parameters in order -/
  head : parameters ≠ [] → lines[0]? = some (flat (name ++ "(" ++
    ", ".intercalate (parameters.map fun parameter => parameter.type ++
      (if parameter.passing = .moveWhole then " &&" else " ") ++ parameter.name) ++ ")"))
  /-- one more line for each parameter, and no others -/
  length : parameters ≠ [] → lines.length = parameters.length + 1
  /-- each of them initialises the member of its parameter -/
  initialiser : ∀ (i : Nat) (parameter : Parameter), parameters[i]? = some parameter →
    lines[i + 1]? = some (continued ((if i = 0 then ": " else "  ") ++
      (if parameter.passing = .copy then parameter.member ++ "(" ++ parameter.name ++ ")"
        else parameter.member ++ "(std::move(" ++ parameter.name ++ "))") ++
      (if i + 1 = parameters.length then " \x7b\x7d" else ",")))

namespace Node

variable {name : String} {parameters : List Parameter} {lines : List Line}

/-- A name and parameters leave nothing open in the lines of a constructor. -/
theorem IsConstructor.unique {others : List Line} (h : IsConstructor name parameters lines)
    (ho : IsConstructor name parameters others) : lines = others := by
  by_cases hnil : parameters = []
  · rw [h.of_nil hnil, ho.of_nil hnil]
  · refine List.ext_getElem? fun i => ?_
    cases i with
    | zero => rw [h.head hnil, ho.head hnil]
    | succ i =>
      cases hi : parameters[i]? with
      | some parameter => rw [h.initialiser i parameter hi, ho.initialiser i parameter hi]
      | none =>
        have hend : parameters.length ≤ i := List.getElem?_eq_none_iff.1 hi
        rw [List.getElem?_eq_none (by rw [h.length hnil]; omega),
          List.getElem?_eq_none (by rw [ho.length hnil]; omega)]

theorem isConstructor_constructorLines (node : Node) :
    IsConstructor node.name node.parameters node.constructorLines := by
  have hdeclarations : (fun parameter : Parameter => parameter.type ++
      (if parameter.passing = .moveWhole then " &&" else " ") ++ parameter.name) =
        Parameter.declaration :=
    funext fun parameter => (Parameter.declaration_eq parameter).symm
  unfold constructorLines
  split
  · next hnil =>
    rw [hnil]
    exact ⟨fun _ => rfl, by simp, by simp, by simp⟩
  · next hne =>
    refine ⟨fun hnil => absurd hnil hne, fun _ => by rw [hdeclarations]; rfl,
      fun _ => by rw [List.length_cons, Parameter.length_initialiserLines], ?_⟩
    intro i parameter hi
    rw [List.getElem?_cons_succ, Parameter.getElem?_initialiserLines, hi, Option.map_some,
      Parameter.initialiser_eq]

end Node

/-! ## Nodes in headers -/

/-- The lines of a node stand in its header as they are. -/
theorem Family.exists_headerLines_eq (family : Family) {node : Node} (hn : node ∈ family.nodes)
    (config : Config) :
    ∃ before after, family.headerLines config = before ++ node.lines ++ after := by
  obtain ⟨front, back, hnodes⟩ := List.append_of_mem hn
  have hlines : family.nodeLines = front.flatMap (fun node => node.lines ++ [blank]) ++
      (node.lines ++ [blank] ++ back.flatMap fun node => node.lines ++ [blank]) := by
    rw [nodeLines, hnodes, List.flatMap_append, List.flatMap_cons]
  refine ⟨family.linesBeforeNodes config ++ front.flatMap (fun node => node.lines ++ [blank]),
    [blank] ++ back.flatMap (fun node => node.lines ++ [blank]) ++ family.linesAfterNodes config,
    ?_⟩
  rw [headerLines_eq_nodes, hlines]
  simp only [List.append_assoc]

/-! ## Nodes in the text of headers -/

theorem Parameter.text_ne_empty_of_mem_initialiserLines {leader : String}
    {parameters : List Parameter} {line : Line} (h : line ∈ initialiserLines leader parameters) :
    line.text ≠ "" := by
  fun_induction initialiserLines leader parameters with
  | case1 => exact absurd h List.not_mem_nil
  | case2 leader parameter =>
    obtain rfl := List.mem_singleton.1 h
    simp
  | case3 leader parameter rest _ ih =>
    rcases List.mem_cons.1 h with rfl | hrest
    · simp
    · exact ih hrest

namespace Node

/-- The texts of the members, one a line, and of the empty line that sets them off. -/
def memberTexts (unit : String) (node : Node) : List String :=
  match node.members with
  | [] => []
  | members => members.map (fun member => unit ++ member.type ++ " " ++ member.name ++ ";") ++ [""]

/-- The texts of the lines that a node with the constructor starts with. -/
def openingTexts (unit : String) (node : Node) (constructor : List Line) : List String :=
  ["struct " ++ node.name ++ " : " ++ node.base ++ " \x7b"] ++ node.memberTexts unit ++
    constructor.map fun line => margin unit (line.depth + 1) ++ line.text

theorem text_ne_empty_of_mem_constructorLines {node : Node} {line : Line}
    (h : line ∈ node.constructorLines) : line.text ≠ "" := by
  unfold constructorLines at h
  split at h
  · obtain rfl := List.mem_singleton.1 h
    simp
  · rcases List.mem_cons.1 h with rfl | hline
    · simp
    · exact Parameter.text_ne_empty_of_mem_initialiserLines hline

theorem map_shown_memberLines (node : Node) (config : Config) :
    (indented node.memberLines).map (shown config) =
      node.memberTexts config.indentation.text := by
  have hmember : ∀ member : Member,
      (deeper (flat (member.type ++ " " ++ member.name ++ ";"))).shown config =
        config.indentation.text ++ member.type ++ " " ++ member.name ++ ";" := by
    intro member
    rw [shown_deeper_flat config (by simp)]
    simp only [String.append_assoc]
  have hblank : (deeper blank).shown config = "" := rfl
  unfold memberLines memberTexts
  cases node.members with
  | nil => rfl
  | cons first rest =>
    simp only [indented, List.map_append, List.map_map, List.map_cons, List.map_nil, hblank,
      Function.comp_def, hmember]

/-- The lines of a node start with its members and its constructor. -/
theorem openingTexts_prefix (node : Node) (config : Config) :
    node.openingTexts config.indentation.text node.constructorLines <+:
      node.lines.map (shown config) := by
  have hconstructor : (indented node.constructorLines).map (shown config) =
      node.constructorLines.map fun line =>
        margin config.indentation.text (line.depth + 1) ++ line.text := by
    rw [indented, List.map_map]
    exact List.map_congr_left fun line hline =>
      shown_deeper config (text_ne_empty_of_mem_constructorLines hline)
  refine ⟨(indented (node.entryPoints.flatMap entryPointLines) ++ [flat "\x7d;"]).map
    (shown config), ?_⟩
  rw [openingTexts, ← map_shown_memberLines, ← hconstructor]
  simp [lines, indented, shown_flat]

end Node

/-- A node starts in the text of its header as it starts by itself. -/
theorem Family.openingTexts_infix {family : Family} {config : Config} (h : family.WellNamed)
    (hc : config.Accepted) {node : Node} (hn : node ∈ family.nodes) :
    node.openingTexts config.indentation.text node.constructorLines <:+:
      Text.lines (family.header config).contents := by
  obtain ⟨before, after, hlines⟩ := family.exists_headerLines_eq hn config
  have hnode : node.lines.map (shown config) <:+: Text.lines (family.header config).contents := by
    refine ⟨before.map (shown config), after.map (shown config) ++ [""], ?_⟩
    rw [lines_contents h hc, hlines]
    simp
  exact (node.openingTexts_prefix config).isInfix.trans hnode

namespace Catalogue

variable {ds : List FamilyDeclaration} {c : Catalogue}

theorem fieldNames_nodup (h : load ds = .ok c) {family : Family} (hf : family ∈ c.families)
    {variant : Variant} (hv : variant ∈ family.variants) :
    (variant.fields.map (·.name)).Nodup := by
  obtain ⟨i, d, hd, -, hdenotes⟩ := exists_denotes_of_mem h hf
  obtain ⟨hadmissible, -⟩ := load_eq_ok_iff.1 h
  obtain ⟨e, he, hvariant⟩ := exists_of_forall₂_right hdenotes.variants hv
  rw [map_eq_of_forall₂ (fun _ _ hfield => hfield.name) hvariant.fields]
  exact hadmissible.fields_nodup d (List.mem_of_getElem? hd) e he

/-- The node of a variant has one member and one parameter for each field, in order, and no two
members are called the same. Its lines are the members, followed by a constructor that takes the
parameters in order and initialises each member from the parameter of its own field; they are
written into its header under every configuration. If the command line accepts the
configuration, the line that opens the node, those of the members and those of the constructor
stand one after the other among the lines of the text of the header. -/
theorem constructors_follow_fields (h : load ds = .ok c) {family : Family}
    (hf : family ∈ c.families) {variant : Variant} (hv : variant ∈ family.variants) :
    (family.node variant).members.length = variant.fields.length ∧
      (family.node variant).parameters.length = variant.fields.length ∧
      (∀ (i : Nat) (field : Field), variant.fields[i]? = some field →
        ∃ member parameter, (family.node variant).members[i]? = some member ∧
          (family.node variant).parameters[i]? = some parameter ∧
          field.IsTaken family variant member parameter) ∧
      ((family.node variant).members.map (·.name)).Nodup ∧
      ∃ constructor,
        Node.IsConstructor variant.name (family.node variant).parameters constructor ∧
        (family.node variant).lines =
          [flat ("struct " ++ variant.name ++ " : " ++ family.basename ++ " \x7b")] ++
            indented ((family.node variant).memberLines ++ constructor ++
              (family.node variant).entryPoints.flatMap Node.entryPointLines) ++
            [flat "\x7d;"] ∧
        (∀ config, ∃ before after, (family.header config).contents =
          renderAll config (before ++ (family.node variant).lines ++ after)) ∧
        ∀ config : Config, config.Accepted →
          (family.node variant).openingTexts config.indentation.text constructor <:+:
            Text.lines (family.header config).contents := by
  have hnode : family.node variant ∈ family.nodes := List.mem_map_of_mem hv
  refine ⟨List.length_map _, List.length_map _, ?_, ?_, (family.node variant).constructorLines,
    (family.node variant).isConstructor_constructorLines, rfl, ?_, ?_⟩
  · intro i field hi
    refine ⟨family.member field, family.parameter variant field, ?_, ?_,
      family.isTaken (List.mem_of_getElem? hi)⟩
    · rw [Family.node, List.getElem?_map, hi]
      rfl
    · rw [Family.node, List.getElem?_map, hi]
      rfl
  · have hnames : (family.node variant).members.map (·.name) =
        (variant.fields.map (·.name)).map Naming.member := by
      rw [Family.node, List.map_map, List.map_map]
      rfl
    rw [hnames]
    exact (fieldNames_nodup h hf hv).map Naming.member_injective
  · intro config
    obtain ⟨before, after, hlines⟩ := family.exists_headerLines_eq hnode config
    refine ⟨before, after, ?_⟩
    simp only [Family.header, hlines]
  · intro config hc
    exact Family.openingTexts_infix (wellNamed_of_mem h hf) hc hnode

end Catalogue

/-- The node for calls in Lox: a field for a node, one for a token, and a list that
is not the only field. -/
def Lox.callNode : Node where
  name := "Call"
  base := "Expr"
  members := [⟨"ExprPtr", "callee_"⟩, ⟨"Token", "paren_"⟩, ⟨"ExprList", "args_"⟩]
  parameters :=
    [{ type := "ExprPtr", name := "callee", member := "callee_", passing := .move },
     { type := "Token", name := "paren", member := "paren_", passing := .copy },
     { type := "ExprList", name := "args", member := "args_", passing := .move }]
  entryPoints :=
    [⟨"ExprResult", "expr::Visitor<ExprResult>", "visitCallExpr"⟩,
     ⟨"std::string", "expr::Visitor<std::string>", "visitCallExpr"⟩]

/-- The fourth variant of the expressions of Lox is the call. -/
theorem Lox.node_call :
    ((Catalogue.load declarations).toOption.bind fun c => c.families[0]?).bind
      (fun family => family.variants[3]?.map family.node) = some callNode := by
  decide +kernel

/-- The constructor of a call in Lox. -/
def Lox.callConstructor : List Line :=
  [flat "Call(ExprPtr callee, Token paren, ExprList args)",
   continued ": callee_(std::move(callee)),",
   continued "  paren_(paren),",
   continued "  args_(std::move(args)) \x7b\x7d"]

/-- In the header of the expressions of Lox, the node for calls has three members and a
constructor of four lines. -/
theorem Lox.call_constructor_follows_fields :
    ∃ c, Catalogue.load declarations = .ok c ∧ ∃ family ∈ c.families,
      ∃ variant ∈ family.variants, variant.name = "Call" ∧
        (family.node variant).members.length = 3 ∧
        (family.node variant).lines =
          [flat ("struct " ++ variant.name ++ " : " ++ family.basename ++ " \x7b")] ++
            indented ((family.node variant).memberLines ++ callConstructor ++
              (family.node variant).entryPoints.flatMap Node.entryPointLines) ++
            [flat "\x7d;"] ∧
        (∃ before after, (family.header {}).contents =
          renderAll {} (before ++ (family.node variant).lines ++ after)) ∧
        Config.Accepted {} ∧
        ["struct Call : Expr \x7b",
         "  ExprPtr callee_;",
         "  Token paren_;",
         "  ExprList args_;",
         "",
         "  Call(ExprPtr callee, Token paren, ExprList args)",
         "      : callee_(std::move(callee)),",
         "        paren_(paren),",
         "        args_(std::move(args)) \x7b\x7d"] <:+:
          Text.lines (family.header {}).contents := by
  have hfacts := node_call
  obtain ⟨c, hc, -⟩ := Catalogue.exists_load_of_isOk catalogue_isOk
  rw [hc] at hfacts
  simp only [Except.toOption, Option.bind_some, Option.bind_eq_some_iff,
    Option.map_eq_some_iff] at hfacts
  obtain ⟨family, hfamily, variant, hvariant, hnode⟩ := hfacts
  have hf : family ∈ c.families := List.mem_of_getElem? hfamily
  have hv : variant ∈ family.variants := List.mem_of_getElem? hvariant
  obtain ⟨hmembers, hlength, -, -, constructor, hconstructor, hlines, hcontents, htext⟩ :=
    Catalogue.constructors_follow_fields hc hf hv
  have hname : variant.name = "Call" := congrArg Node.name hnode
  have hconfig : Config.Accepted {} := ⟨by decide, by decide⟩
  have hunit : Indentation.text ({} : Config).indentation = "  " := by decide
  have hcall : constructor = callConstructor := by
    rw [hname, hnode] at hconstructor
    rw [hconstructor.unique callNode.isConstructor_constructorLines]
    decide
  refine ⟨c, hc, family, hf, variant, hv, hname, ?_, ?_, hcontents {}, hconfig, ?_⟩
  · rw [hmembers, ← hlength, hnode]
    rfl
  · rw [hlines, hcall]
  · have hopening := htext {} hconfig
    rw [hcall, hunit, hnode] at hopening
    exact hopening

end TreeHeaders
