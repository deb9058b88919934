import TreeHeaders.Proofs.Construction
import TreeHeaders.Proofs.Inclusion
import TreeHeaders.Proofs.Overriding
import Mathlib.Data.List.Nodup

set_option autoImplicit false

/-!
# The scope of a node

A field of a variant gives its name to two things in the node type: a parameter of the
constructor, which is called like the field, and a member, which is called like the field with
`_` after it. Each of them hides what else is called so, the parameter inside the constructor
and the member inside the whole type.

Loading compares the fields with the types of parameters in all families, so a parameter hides
nothing that a constructor needs (`Catalogue.parameters_shadow_nothing`). It does not look at
members. These are kept apart from one another and from the types of members, but a variant or a
result type that ends with `_` may be called like one (`Catalogue.members_collide_iff`).
-/

namespace TreeHeaders

open Text

/-! ## Reading the body of a node -/

namespace Clause

/-- The types that a node names without a qualifier: itself, those of its members and
those of its results. -/
def namedTypes (clauses : List Clause) : List String :=
  clauses.filterMap fun
    | .node name _ => some name
    | .member type _ => some type
    | .overriding result _ _ => some result
    | _ => none

theorem namedTypes_append (xs ys : List Clause) :
    namedTypes (xs ++ ys) = namedTypes xs ++ namedTypes ys :=
  List.filterMap_append

theorem namedTypes_node (node : Node) :
    namedTypes node.clauses =
      node.name :: (node.members.map (·.type) ++ node.entryPoints.map (·.result)) := by
  have hself : namedTypes node.clauses = node.name :: namedTypes node.innerClauses := rfl
  have hmembers : namedTypes (node.members.map fun member => .member member.type member.name) =
      node.members.map (·.type) := by
    simp [namedTypes, List.filterMap_map]
  have hentries : namedTypes (node.entryPoints.flatMap Node.entryClauses) =
      node.entryPoints.map (·.result) := by
    rw [namedTypes, List.filterMap_flatMap, List.map_eq_flatMap]
    rfl
  rw [hself, Node.innerClauses, namedTypes_append, hmembers, hentries]

end Clause

namespace Line

/-- The names of the members that the lines of a node declare. -/
def memberNames (lines : List Line) : List String :=
  (Clause.members (clauses lines)).map (·.name)

/-- The types that the lines of a node name without a qualifier. -/
def namedTypes (lines : List Line) : List String :=
  Clause.namedTypes (clauses lines)

end Line

namespace Family

variable {family : Family} {variant : Variant}

theorem memberNames_node (h : family.WellNamed) (hv : variant ∈ family.variants) :
    Line.memberNames (family.node variant).lines =
      variant.fields.map fun field => Naming.member field.name := by
  rw [Line.memberNames, Node.clauses_lines (allWords_node h hv), Clause.members_node, node,
    List.map_map]
  rfl

theorem namedTypes_node (h : family.WellNamed) (hv : variant ∈ family.variants) :
    Line.namedTypes (family.node variant).lines =
      variant.name :: (variant.fields.map (fun field =>
        Naming.fieldType family.basename field.type) ++ family.results) := by
  have hresults : (family.results.map (family.entryPoint variant)).map (·.result) =
      family.results := by
    rw [List.map_map]
    exact List.map_id _
  rw [Line.namedTypes, Node.clauses_lines (allWords_node h hv), Clause.namedTypes_node, node,
    hresults, List.map_map]
  rfl

end Family

/-! ## Members -/

namespace Naming

theorem getLast?_member (field : String) : (member field).toList.getLast? = some '_' := by
  simp [member]

/-- No type as which a field is stored ends with `_`. -/
theorem getLast?_fieldType_ne (family : String) (type : FieldType) :
    (fieldType family type).toList.getLast? ≠ some '_' := by
  have hprimitive : ∀ p : Primitive, (primitive p).toList.getLast? ≠ some '_' := by
    intro p
    cases p <;> decide
  cases type with
  | primitive p => exact hprimitive p
  | token => simp [fieldType, tokenName]
  | child => simp [fieldType, handle]
  | foreignChild other => simp [fieldType, handle]
  | children => simp [fieldType, list]

theorem member_ne_fieldType (field family : String) (type : FieldType) :
    member field ≠ fieldType family type := by
  intro heq
  apply getLast?_fieldType_ne family type
  rw [← heq]
  exact getLast?_member field

end Naming

namespace Family

variable {family : Family} {variant : Variant}

/-- The only result type that can be called like a member is that of the contract. -/
theorem member_mem_results_iff {field : String} :
    Naming.member field ∈ family.results ↔ family.contract = .value (Naming.member field) := by
  have hlast := Naming.getLast?_member field
  constructor
  · intro hmem
    rcases mem_results hmem with hnone | htext | hvalue
    · rw [hnone] at hlast
      exact absurd hlast (by decide)
    · rw [htext] at hlast
      exact absurd hlast (by decide)
    · exact hvalue
  · intro hvalue
    rw [results_eq, hvalue]
    exact List.mem_cons_self

/-- A type that is called like a member is the node itself or the result type of
the contract. -/
theorem member_mem_namedTypes_iff (h : family.WellNamed) (hv : variant ∈ family.variants)
    {field : String} :
    Naming.member field ∈ Line.namedTypes (family.node variant).lines ↔
      variant.name = Naming.member field ∨ family.contract = .value (Naming.member field) := by
  have hfields : Naming.member field ∉ variant.fields.map fun field =>
      Naming.fieldType family.basename field.type := by
    intro hmem
    obtain ⟨other, -, heq⟩ := List.mem_map.1 hmem
    exact Naming.member_ne_fieldType field family.basename other.type heq.symm
  rw [namedTypes_node h hv, List.mem_cons, List.mem_append, member_mem_results_iff,
    or_iff_right hfields, eq_comm]

end Family

/-! ## Parameters -/

namespace FamilyDeclaration

variable {ds : List FamilyDeclaration}

/-- Loading compares the names of fields with the handle and the list type of every family. -/
theorem alias_mem_allParameterTypes {name type : String} (h : name ∈ ds.map (·.basename))
    (ht : type ∈ [Naming.handle name, Naming.list name]) : type ∈ allParameterTypes ds := by
  obtain ⟨d, hd, rfl⟩ := List.mem_map.1 h
  exact List.mem_cons_of_mem _ (List.mem_cons_of_mem _ (List.mem_flatMap.2 ⟨d, hd, ht⟩))

end FamilyDeclaration

/-- The types of the parameters of all constructors, in all families. -/
def Catalogue.parameterTypes (c : Catalogue) : List String :=
  c.families.flatMap fun family => family.nodes.flatMap fun node => node.parameters.map (·.type)

namespace Catalogue

variable {ds : List FamilyDeclaration} {c : Catalogue}

theorem mem_parameterTypes_iff {type : String} :
    type ∈ c.parameterTypes ↔ ∃ family ∈ c.families, ∃ variant ∈ family.variants,
      ∃ field ∈ variant.fields, Naming.fieldType family.basename field.type = type := by
  simp [parameterTypes, Family.nodes, Family.node, Family.parameter, Family.member]

theorem basename_mem (h : load ds = .ok c) {family : Family} (hf : family ∈ c.families) :
    family.basename ∈ ds.map (·.basename) := by
  obtain ⟨-, hdenotes⟩ := load_eq_ok_iff.1 h
  rw [← hdenotes.map_basename]
  exact List.mem_map_of_mem hf

/-- The type of a parameter is no identifier, or it is one of those with which loading
compares the names of fields. -/
theorem mem_allParameterTypes_of_isIdentifier (h : load ds = .ok c) {type : String}
    (ht : type ∈ c.parameterTypes) (hid : isIdentifier type = true) :
    type ∈ FamilyDeclaration.allParameterTypes ds := by
  obtain ⟨family, hf, variant, hv, field, hfield, rfl⟩ := mem_parameterTypes_iff.1 ht
  have hprimitive : ∀ p : Primitive, isIdentifier (Naming.primitive p) = false := by
    intro p
    cases p <;> decide
  have hbasename := basename_mem h hf
  cases hkind : field.type with
  | primitive p =>
    rw [hkind, Naming.fieldType, hprimitive p] at hid
    exact absurd hid (by decide)
  | token => exact List.mem_cons_self
  | child => exact FamilyDeclaration.alias_mem_allParameterTypes hbasename List.mem_cons_self
  | foreignChild name =>
    obtain ⟨i, hi⟩ := List.mem_iff_getElem?.1 hf
    obtain ⟨j, other, -, hother, rfl⟩ := exists_earlier_of_foreignChild h hi hv hfield hkind
    exact FamilyDeclaration.alias_mem_allParameterTypes
      (basename_mem h (List.mem_of_getElem? hother)) List.mem_cons_self
  | children =>
    exact FamilyDeclaration.alias_mem_allParameterTypes hbasename
      (List.mem_cons_of_mem _ List.mem_cons_self)

theorem fieldName_notMem (h : load ds = .ok c) {family : Family} (hf : family ∈ c.families)
    {variant : Variant} (hv : variant ∈ family.variants) {field : Field}
    (hfield : field ∈ variant.fields) :
    field.name ∉ FamilyDeclaration.allParameterTypes ds := by
  obtain ⟨i, d, hd, -, hdenotes⟩ := exists_denotes_of_mem h hf
  obtain ⟨hadmissible, -⟩ := load_eq_ok_iff.1 h
  obtain ⟨e, he, hvariant⟩ := exists_of_forall₂_right hdenotes.variants hv
  obtain ⟨declared, hdeclared, hname⟩ := exists_of_forall₂_right hvariant.fields hfield
  rw [hname.name]
  exact hadmissible.fields_notMem d (List.mem_of_getElem? hd) e he declared hdeclared

end Catalogue

/-! ## Nodes of a catalogue -/

namespace Catalogue

variable {ds : List FamilyDeclaration} {c : Catalogue}

/-- The parameters of a constructor have different names, and none of them is called `std`, like
the token type, like the type of a parameter of any node, or like the handle or the list type of
any family, wherever that stands in the catalogue. -/
theorem parameters_shadow_nothing (h : load ds = .ok c) {family : Family} (hf : family ∈ c.families)
    {variant : Variant} (hv : variant ∈ family.variants) :
    ((family.node variant).parameters.map (·.name)).Nodup ∧
      ∀ parameter ∈ (family.node variant).parameters,
        parameter.name ≠ "std" ∧ parameter.name ≠ tokenName ∧ parameter.name ∉ c.parameterTypes ∧
          ∀ other ∈ c.families, parameter.name ≠ Naming.handle other.basename ∧
            parameter.name ≠ Naming.list other.basename := by
  refine ⟨?_, ?_⟩
  · have hnames : (family.node variant).parameters.map (·.name) = variant.fields.map (·.name) := by
      rw [Family.node, List.map_map]
      rfl
    rw [hnames]
    exact fieldNames_nodup h hf hv
  · intro parameter hparameter
    obtain ⟨field, hfield, rfl⟩ := List.mem_map.1 hparameter
    have hid : isIdentifier field.name = true :=
      (wellNamed_of_mem h hf).fields variant hv field hfield
    have hfree : ∀ {name : String}, name ∈ FamilyDeclaration.allParameterTypes ds →
        field.name ≠ name := by
      intro name hname heq
      apply fieldName_notMem h hf hv hfield
      rwa [heq]
    refine ⟨hfree (by simp [FamilyDeclaration.allParameterTypes]), hfree List.mem_cons_self, ?_, ?_⟩
    · intro htype
      exact hfree (mem_allParameterTypes_of_isIdentifier h htype hid) rfl
    · intro other hother
      have halias : ∀ type ∈ [Naming.handle other.basename, Naming.list other.basename],
          field.name ≠ type := by
        intro type htype
        exact hfree (FamilyDeclaration.alias_mem_allParameterTypes (basename_mem h hother) htype)
      exact ⟨halias _ (by simp), halias _ (by simp)⟩

/-- Fields that are called like a later family, a visitor namespace and a variant, and one that
is called like the token type in small letters. -/
def nearMisses : List FamilyDeclaration :=
  [{ basename := "Expr"
     variants := [{ name := "Call", fields := [{ type := "Token", name := "Stmt" },
       { type := "[Expr]", name := "expr" }, { type := "string", name := "token" }] }] },
   { basename := "Stmt"
     variants := [{ name := "Block", fields := [{ type := "[Stmt]", name := "Call" }] }] }]

/-- None of the names that the first constructor gives to its parameters is that of a type, not
even of the list type of the family after it. -/
theorem nearMisses_shadow_nothing :
    ∃ c, load nearMisses = .ok c ∧ ∃ family ∈ c.families, ∃ variant ∈ family.variants,
      (family.node variant).parameters.map (·.name) = ["Stmt", "expr", "token"] ∧
      ["Stmt", "expr", "token"].Nodup ∧
      ∀ name ∈ ["Stmt", "expr", "token"], name ≠ "std" ∧ name ∉ c.parameterTypes ∧
        ∀ other ∈ c.families, name ≠ Naming.list other.basename := by
  have hok : (load nearMisses).isOk = true := by decide +kernel
  obtain ⟨c, hc, family, hfamily, hdenotes⟩ := exists_denotes_of_isOk hok (i := 0) rfl
  obtain ⟨variant, hv, hvariant⟩ := exists_of_forall₂ hdenotes.variants List.mem_cons_self
  have hnames : (family.node variant).parameters.map (·.name) = ["Stmt", "expr", "token"] := by
    rw [Family.node, List.map_map]
    exact map_eq_of_forall₂ (fun _ _ hfield => hfield.name) hvariant.fields
  have hf : family ∈ c.families := List.mem_of_getElem? hfamily
  obtain ⟨hnodup, hfree⟩ := parameters_shadow_nothing hc hf hv
  rw [hnames] at hnodup
  refine ⟨c, hc, family, hf, variant, hv, hnames, hnodup, ?_⟩
  intro name hname
  rw [← hnames] at hname
  obtain ⟨parameter, hparameter, rfl⟩ := List.mem_map.1 hname
  obtain ⟨hstd, -, htypes, hothers⟩ := hfree parameter hparameter
  exact ⟨hstd, htypes, fun other hother => (hothers other hother).2⟩

/-- The lines of a node declare one member for each field, and no two of these are called
the same or one like the type of another. A member is called like a type that the lines
name exactly if the variant or the result type of the family is called so; that takes a `_`
at the end of its name. -/
theorem members_collide_iff (h : load ds = .ok c) {family : Family} (hf : family ∈ c.families)
    {variant : Variant} (hv : variant ∈ family.variants) :
    Line.memberNames (family.node variant).lines =
        variant.fields.map (fun field => field.name ++ "_") ∧
      Line.namedTypes (family.node variant).lines =
        variant.name :: (variant.fields.map (fun field =>
          Naming.fieldType family.basename field.type) ++ family.results) ∧
      (Line.memberNames (family.node variant).lines).Nodup ∧
      (∀ name ∈ Line.memberNames (family.node variant).lines, ∀ field ∈ variant.fields,
        name ≠ Naming.fieldType family.basename field.type) ∧
      (∀ name ∈ Line.memberNames (family.node variant).lines,
        name ∈ Line.namedTypes (family.node variant).lines ↔
          variant.name = name ∨ family.contract = .value name) ∧
      (variant.name.toList.getLast? ≠ some '_' →
        (∀ result, family.contract = .value result → result.toList.getLast? ≠ some '_') →
          ∀ name ∈ Line.memberNames (family.node variant).lines,
            name ∉ Line.namedTypes (family.node variant).lines) := by
  have hnamed : family.WellNamed := wellNamed_of_mem h hf
  have hnames := Family.memberNames_node hnamed hv
  refine ⟨hnames, Family.namedTypes_node hnamed hv, ?_, ?_, ?_, ?_⟩
  · have hmembers : variant.fields.map (fun field => Naming.member field.name) =
        (variant.fields.map (·.name)).map Naming.member := by
      rw [List.map_map]
      rfl
    rw [hnames, hmembers]
    exact (fieldNames_nodup h hf hv).map Naming.member_injective
  all_goals rw [hnames, List.forall_mem_map]
  · intro field _ other _
    exact Naming.member_ne_fieldType field.name family.basename other.type
  · intro field _
    exact Family.member_mem_namedTypes_iff hnamed hv
  · intro hvariant hresult field _ hmem
    have hlast := Naming.getLast?_member field.name
    rcases (Family.member_mem_namedTypes_iff hnamed hv).1 hmem with hname | hvalue
    · rw [← hname] at hlast
      exact hvariant hlast
    · exact hresult _ hvalue hlast

/-- A result type that is called like the member of one variant, and a variant that is
called like its own member. -/
def collidingMembers : List FamilyDeclaration :=
  [{ basename := "Expr"
     result := some "value_"
     variants := [{ name := "Literal", fields := [{ type := "number", name := "value" }] },
       { name := "name_", fields := [{ type := "string", name := "name" }] }] }]

/-- Both nodes declare a member that is called like a type which their lines name. -/
theorem members_called_like_types :
    ∃ c, load collidingMembers = .ok c ∧ ∃ family ∈ c.families,
      family.contract = .value "value_" ∧
      family.nodes.map (fun node => (Line.memberNames node.lines, Line.namedTypes node.lines)) =
        [(["value_"], ["Literal", "double", "value_"]),
         (["name_"], ["name_", "std::string", "value_"])] := by
  have hok : (load collidingMembers).isOk = true := by decide +kernel
  obtain ⟨c, hc, family, hfamily, hdenotes⟩ := exists_denotes_of_isOk hok (i := 0) rfl
  have hlines : (load collidingMembers).toOption.bind (fun c => c.families[0]?.map fun family =>
      family.nodes.map fun node => (Line.memberNames node.lines, Line.namedTypes node.lines)) =
        some [(["value_"], ["Literal", "double", "value_"]),
          (["name_"], ["name_", "std::string", "value_"])] := by
    decide +kernel
  rw [hc] at hlines
  simp only [Except.toOption, Option.bind_some, hfamily, Option.map_some,
    Option.some.injEq] at hlines
  exact ⟨c, hc, family, List.mem_of_getElem? hfamily, hdenotes.contract, hlines⟩

end Catalogue

/-- In Lox, no member of a call is called like a type that the lines of the node name. -/
theorem Lox.call_members_apart :
    ∃ c, Catalogue.load declarations = .ok c ∧ ∃ family ∈ c.families,
      ∃ variant ∈ family.variants, variant.name = "Call" ∧
        family.contract = .value "ExprResult" ∧
        Line.memberNames (family.node variant).lines = ["callee_", "paren_", "args_"] ∧
        ∀ name ∈ ["callee_", "paren_", "args_"],
          name ∉ Line.namedTypes (family.node variant).lines := by
  obtain ⟨c, hc, family, hfamily, hdenotes⟩ := Catalogue.exists_denotes_of_isOk catalogue_isOk
    (show declarations[0]? = some expressions from rfl)
  have hcall : variant "Call" [("Expr", "callee"), ("Token", "paren"), ("[Expr]", "args")] ∈
      expressions.variants := by
    simp [expressions]
  obtain ⟨call, hv, hdeclared⟩ := exists_of_forall₂ hdenotes.variants hcall
  have hf : family ∈ c.families := List.mem_of_getElem? hfamily
  have hfields : call.fields.map (·.name) = ["callee", "paren", "args"] :=
    map_eq_of_forall₂ (fun _ _ hfield => hfield.name) hdeclared.fields
  obtain ⟨hnames, -, -, -, -, happart⟩ := Catalogue.members_collide_iff hc hf hv
  have hmembers : Line.memberNames (family.node call).lines = ["callee_", "paren_", "args_"] := by
    have hmap := congrArg (List.map fun name : String => name ++ "_") hfields
    rw [List.map_map] at hmap
    exact hnames.trans hmap
  have hcontract : family.contract = .value "ExprResult" := hdenotes.contract
  refine ⟨c, hc, family, hf, call, hv, hdeclared.name, hcontract, hmembers, ?_⟩
  rw [← hmembers]
  apply happart
  · rw [hdeclared.name]
    decide
  · intro result hresult
    rw [hcontract, Contract.value.injEq] at hresult
    rw [← hresult]
    decide

end TreeHeaders
