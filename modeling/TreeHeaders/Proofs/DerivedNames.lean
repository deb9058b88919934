import TreeHeaders.Proofs.GuardForm
import TreeHeaders.Proofs.NodeScope
import TreeHeaders.Proofs.VisitorScope
import Mathlib.Data.Option.Basic

set_option autoImplicit false

/-!
# Derived names of a node

Members and dispatch methods have names that nobody has written: a member is called like its
field with `_` after it, and a method like its variant, between `visit` and the basename. The
parts are identifiers, but putting two identifiers together need not make one: a `_` on either
side of the seam makes a `__`, and such a name is reserved.

This is the only way in which a derived name can fail. It is well formed like its first part, it
is no keyword, since no keyword ends with `_` or starts with `visit`, and it cannot start like a
reserved name unless its first part does. `Catalogue.derivedNames_usable_iff` says exactly which
nodes have names that can be used.
-/

namespace TreeHeaders

/-! ## Names put together -/

namespace Identifier

variable {xs ys : List Char}

theorem isWellFormed_append (hx : isWellFormed xs = true) (hy : ∀ c ∈ ys, isPart c = true) :
    isWellFormed (xs ++ ys) = true := by
  cases xs with
  | nil => exact absurd hx (by decide)
  | cons x xs =>
    simp only [isWellFormed, Bool.and_eq_true, List.all_eq_true] at hx
    simp only [List.cons_append, isWellFormed, Bool.and_eq_true, List.all_append, List.all_eq_true]
    exact ⟨hx.1, hx.2, hy⟩

/-- Two underscores stand next to each other in one of the parts, or one on either side of the
seam. -/
theorem hasDoubleUnderscore_append (xs ys : List Char) :
    hasDoubleUnderscore (xs ++ ys) = true ↔ hasDoubleUnderscore xs = true ∨
      hasDoubleUnderscore ys = true ∨ xs.getLast? = some '_' ∧ ys.head? = some '_' := by
  induction xs with
  | nil => simp [hasDoubleUnderscore]
  | cons x xs ih =>
    cases xs with
    | nil =>
      cases ys with
      | nil => simp [hasDoubleUnderscore]
      | cons y ys => simp [hasDoubleUnderscore, or_comm]
    | cons d ds =>
      rw [List.cons_append] at ih
      rw [List.cons_append, List.cons_append]
      simp only [hasDoubleUnderscore, Bool.or_eq_true, ih, List.getLast?_cons_cons, or_assoc]

/-- How a name starts is settled by its first two characters. -/
theorem startsLikeReserved_append_underscore (xs : List Char) :
    startsLikeReserved (xs ++ ['_']) = startsLikeReserved xs := by
  match xs with
  | [] => rfl
  | [c] => simp [startsLikeReserved]
  | _ :: _ :: _ => rfl

theorem startsLikeReserved_of_head? {c : Char} (h : xs.head? = some c) (hc : c ≠ '_') :
    startsLikeReserved xs = false := by
  obtain ⟨rest, rfl⟩ := List.head?_eq_some_iff.1 h
  cases rest with
  | nil => rfl
  | cons d ds => simp [startsLikeReserved, hc]

end Identifier

/-- The name is made of characters of identifiers and is no keyword, so that only being reserved
can keep it from being an identifier. -/
structure Identifier.Formed (name : String) : Prop where
  wellFormed : isWellFormed name.toList = true
  notMem_keywords : name ∉ keywords

namespace Identifier

variable {name : String}

theorem Formed.isIdentifier_iff (h : Formed name) :
    isIdentifier name = true ↔ isReserved name.toList = false := by
  simp [isIdentifier, h.wellFormed, h.notMem_keywords]

theorem startsLikeReserved_of_isIdentifier (h : isIdentifier name = true) :
    startsLikeReserved name.toList = false := by
  simp only [isIdentifier, isReserved, Bool.and_eq_true, Bool.not_eq_true',
    Bool.or_eq_false_iff] at h
  exact h.1.2.2

/-- A name of two parts without `__` that does not start like a reserved one: it is an
identifier unless there is a `_` on either side of the seam. -/
theorem Formed.append_isIdentifier_iff {left right : String} (h : Formed (left ++ right))
    (hstart : startsLikeReserved (left ++ right).toList = false)
    (hleft : hasDoubleUnderscore left.toList = false)
    (hright : hasDoubleUnderscore right.toList = false) :
    isIdentifier (left ++ right) = true ↔
      ¬ (left.toList.getLast? = some '_' ∧ right.toList.head? = some '_') := by
  rw [h.isIdentifier_iff, isReserved, hstart, Bool.or_false, ← Bool.not_eq_true,
    String.toList_append, hasDoubleUnderscore_append]
  simp only [hleft, hright, Bool.false_eq_true, false_or]

end Identifier

/-! ## Members and methods -/

namespace Naming

open Identifier

theorem formed_member {field : String} (h : isIdentifier field = true) : Formed (member field) := by
  refine ⟨?_, ?_⟩
  · rw [member, String.toList_append]
    exact isWellFormed_append (isWellFormed_of_isIdentifier h) (by simp [isPart])
  · intro hkeyword
    exact getLast?_keyword_ne _ hkeyword (getLast?_member field)

/-- A member can be called so exactly if its field does not end with `_`. -/
theorem isIdentifier_member_iff {field : String} (h : isIdentifier field = true) :
    isIdentifier (member field) = true ↔ field.toList.getLast? ≠ some '_' := by
  have hstart : startsLikeReserved (field ++ "_").toList = false := by
    rw [String.toList_append]
    exact (startsLikeReserved_append_underscore field.toList).trans
      (startsLikeReserved_of_isIdentifier h)
  have hiff : isIdentifier (member field) = true ↔
      ¬ (field.toList.getLast? = some '_' ∧ "_".toList.head? = some '_') :=
    (formed_member h).append_isIdentifier_iff hstart (not_hasDoubleUnderscore h) rfl
  simpa using hiff

variable {variant family : String}

theorem formed_dispatchMethod (hv : isIdentifier variant = true) (hf : isIdentifier family = true) :
    Formed (dispatchMethod variant family) := by
  have hparts : ∀ c ∈ variant.toList ++ family.toList, isPart c = true :=
    List.forall_mem_append.2 ⟨isPart_of_isIdentifier hv, isPart_of_isIdentifier hf⟩
  have hkeywords : ∀ keyword ∈ keywords, ¬ "visit".toList <+: keyword.toList := by decide
  refine ⟨?_, ?_⟩
  · rw [dispatchMethod, String.toList_append, String.toList_append, List.append_assoc]
    exact isWellFormed_append (by decide) hparts
  · intro hkeyword
    exact hkeywords _ hkeyword (prefix_dispatchMethod variant family)

/-- A method can be called so exactly if there is no `_` on either side of the seam between
variant and basename. -/
theorem isIdentifier_dispatchMethod_iff (hv : isIdentifier variant = true)
    (hf : isIdentifier family = true) :
    isIdentifier (dispatchMethod variant family) = true ↔
      ¬ (variant.toList.getLast? = some '_' ∧ family.toList.head? = some '_') := by
  have hstart : startsLikeReserved (dispatchMethod variant family).toList = false :=
    startsLikeReserved_of_head? (c := 'v') (by simp [dispatchMethod]) (by decide)
  -- `visit` ends with a letter, so the seam in front of the variant does no harm
  have hfront : hasDoubleUnderscore ("visit" ++ variant).toList = false := by
    rw [← Bool.not_eq_true, String.toList_append, hasDoubleUnderscore_append,
      not_hasDoubleUnderscore hv]
    simp [hasDoubleUnderscore]
  have hlast : ("visit" ++ variant).toList.getLast? = variant.toList.getLast? := by
    obtain ⟨c, hc⟩ := Option.isSome_iff_exists.1 (List.getLast?_isSome.2
      (String.toList_eq_nil_iff.not.2 (ne_empty_of_isIdentifier hv)))
    rw [String.toList_append, List.getLast?_append, hc]
    rfl
  rw [← hlast]
  exact (formed_dispatchMethod hv hf).append_isIdentifier_iff hstart hfront
    (not_hasDoubleUnderscore hf)

end Naming

/-! ## Nodes of a catalogue -/

/-- The names in the lines of a node that are derived from others: those of its members, and
those of the methods to which it is forwarded. -/
def Line.derivedNames (lines : List Line) : List String :=
  memberNames lines ++ Clause.dispatches (clauses lines)

namespace Family

variable {family : Family} {variant : Variant}

theorem derivedNames_node (h : family.WellNamed) (hv : variant ∈ family.variants) :
    Line.derivedNames (family.node variant).lines =
      variant.fields.map (fun field => Naming.member field.name) ++
        family.results.map fun _ => Naming.dispatchMethod variant.name family.basename := by
  rw [Line.derivedNames, memberNames_node h hv, Node.clauses_lines (allWords_node h hv),
    Node.dispatches_clauses, node, List.map_map]
  rfl

theorem forall_mem_derivedNames (h : family.WellNamed) (hv : variant ∈ family.variants)
    {p : String → Prop} :
    (∀ name ∈ Line.derivedNames (family.node variant).lines, p name) ↔
      (∀ field ∈ variant.fields, p (Naming.member field.name)) ∧
        p (Naming.dispatchMethod variant.name family.basename) := by
  have hresult : family.contract.result ∈ family.results := by
    rw [results_eq]
    exact List.mem_cons_self
  rw [derivedNames_node h hv, List.forall_mem_append, List.forall_mem_map, List.forall_mem_map]
  exact and_congr_right' ⟨fun hall => hall _ hresult, fun hmethod _ _ => hmethod⟩

end Family

namespace Catalogue

/-- The names of the members and of the dispatch methods in the lines of a node are identifiers
unless they are reserved. A member is reserved exactly if its field ends with `_`, and a method
exactly if the variant ends and the basename starts with `_`. -/
theorem derivedNames_usable_iff {ds : List FamilyDeclaration} {c : Catalogue} (h : load ds = .ok c)
    {family : Family} (hf : family ∈ c.families) {variant : Variant}
    (hv : variant ∈ family.variants) :
    Line.derivedNames (family.node variant).lines =
        variant.fields.map (fun field => field.name ++ "_") ++
          family.results.map (fun _ => "visit" ++ variant.name ++ family.basename) ∧
      (∀ name ∈ Line.derivedNames (family.node variant).lines,
        isIdentifier name = true ↔ Identifier.isReserved name.toList = false) ∧
      (∀ field ∈ variant.fields,
        isIdentifier (field.name ++ "_") = true ↔ field.name.toList.getLast? ≠ some '_') ∧
      (isIdentifier ("visit" ++ variant.name ++ family.basename) = true ↔
        ¬ (variant.name.toList.getLast? = some '_' ∧ family.basename.toList.head? = some '_')) ∧
      ((∀ name ∈ Line.derivedNames (family.node variant).lines, isIdentifier name = true) ↔
        (∀ field ∈ variant.fields, field.name.toList.getLast? ≠ some '_') ∧
          ¬ (variant.name.toList.getLast? = some '_' ∧
            family.basename.toList.head? = some '_')) := by
  have hnamed : family.WellNamed := wellNamed_of_mem h hf
  have hvariant : isIdentifier variant.name = true := hnamed.variants variant hv
  have hfields : ∀ field ∈ variant.fields, isIdentifier field.name = true :=
    hnamed.fields variant hv
  have hmember : ∀ field ∈ variant.fields,
      isIdentifier (Naming.member field.name) = true ↔ field.name.toList.getLast? ≠ some '_' :=
    fun field hfield => Naming.isIdentifier_member_iff (hfields field hfield)
  have hmethod := Naming.isIdentifier_dispatchMethod_iff hvariant hnamed.basename
  refine ⟨Family.derivedNames_node hnamed hv, ?_, hmember, hmethod, ?_⟩
  · rw [Family.forall_mem_derivedNames hnamed hv]
    exact ⟨fun field hfield => (Naming.formed_member (hfields field hfield)).isIdentifier_iff,
      (Naming.formed_dispatchMethod hvariant hnamed.basename).isIdentifier_iff⟩
  · rw [Family.forall_mem_derivedNames hnamed hv, hmethod]
    exact and_congr_left' (forall₂_congr hmember)

/-- A field that ends with `_`, and a variant that ends with it in a family that
starts with one. -/
def seams : List FamilyDeclaration :=
  [{ basename := "_stMt"
     variants := [{ name := "If_", fields := [{ type := "_stMt", name := "then" },
       { type := "_stMt", name := "else_" }] }] }]

/-- The second member of the node and the method for it have a `__` in their names. -/
theorem derivedNames_reserved :
    ∃ c, load seams = .ok c ∧ ∃ family ∈ c.families, ∃ node ∈ family.nodes,
      Line.derivedNames node.lines = ["then_", "else__", "visitIf__stMt"] ∧
      isIdentifier "else__" = false ∧ isIdentifier "visitIf__stMt" = false := by
  have hok : (load seams).isOk = true := by decide +kernel
  obtain ⟨c, hc, family, hfamily, -⟩ := exists_denotes_of_isOk hok (i := 0) rfl
  have hlines : (load seams).toOption.bind (fun c => c.families[0]?.bind fun family =>
      family.nodes[0]?.map fun node => Line.derivedNames node.lines) =
        some ["then_", "else__", "visitIf__stMt"] := by
    decide +kernel
  rw [hc] at hlines
  simp only [Except.toOption, Option.bind_some, hfamily, Option.map_eq_some_iff] at hlines
  obtain ⟨node, hnode, hnames⟩ := hlines
  exact ⟨c, hc, family, List.mem_of_getElem? hfamily, node, List.mem_of_getElem? hnode, hnames,
    by decide, by decide⟩

end Catalogue

/-- All derived names in the node for conditions in Lox can be used. -/
theorem Lox.if_derivedNames_usable :
    ∃ c, Catalogue.load declarations = .ok c ∧ ∃ family ∈ c.families,
      ∃ variant ∈ family.variants, variant.name = "If" ∧
        variant.fields.map (·.name) = ["condition", "then", "else_br"] ∧
        ∀ name ∈ Line.derivedNames (family.node variant).lines, isIdentifier name = true := by
  obtain ⟨c, hc, family, hfamily, hdenotes⟩ := Catalogue.exists_denotes_of_isOk catalogue_isOk
    (show declarations[1]? = some statements from rfl)
  have hif : variant "If" [("Expr", "condition"), ("Stmt", "then"), ("Stmt", "else_br")] ∈
      statements.variants := by
    simp [statements]
  obtain ⟨condition, hv, hdeclared⟩ := exists_of_forall₂ hdenotes.variants hif
  have hf : family ∈ c.families := List.mem_of_getElem? hfamily
  have hfields : condition.fields.map (·.name) = ["condition", "then", "else_br"] :=
    map_eq_of_forall₂ (fun _ _ hfield => hfield.name) hdeclared.fields
  obtain ⟨-, -, -, -, husable⟩ := Catalogue.derivedNames_usable_iff hc hf hv
  refine ⟨c, hc, family, hf, condition, hv, hdeclared.name, hfields, husable.2 ⟨?_, ?_⟩⟩
  · have hends : ∀ name ∈ condition.fields.map (·.name), name.toList.getLast? ≠ some '_' := by
      rw [hfields]
      decide
    exact fun field hfield => hends _ (List.mem_map_of_mem hfield)
  · rw [hdeclared.name]
    intro hseam
    exact absurd hseam.1 (by decide)

end TreeHeaders
