import TreeHeaders.Proofs.HeaderClauses
import Mathlib.Data.List.Nodup

set_option autoImplicit false

/-!
# Entry points and dispatch methods

The base, the visitor and the nodes of a family are written one apart from the other, and a
program that uses the header needs them to fit: a node can only be made if it overrides all
that the base leaves open, an overload needs a parameter type of its own, and a visit has to
reach the method for the variant of the node. What the base leaves open and what a node
overrides is read off their lines.

That the methods of a visitor are kept apart rests on the names of the variants, which loading
keeps apart; that the overloads are kept apart rests on the form of identifiers, none of which
can be the type as which text is rendered.
-/

namespace TreeHeaders

open Text

/-! ## Signatures -/

namespace Clause

/-- The methods that are left open: result, name and type of the parameter. -/
def pureVirtuals (clauses : List Clause) : List (String × String × String) :=
  clauses.filterMap fun
    | .pureVirtual result method parameter => some (result, method, parameter)
    | _ => none

/-- The methods that override others: result, name and type of the parameter. -/
def overridings (clauses : List Clause) : List (String × String × String) :=
  clauses.filterMap fun
    | .overriding result method parameter => some (result, method, parameter)
    | _ => none

/-- The methods of a visitor to which the node is forwarded. -/
def dispatches (clauses : List Clause) : List String :=
  clauses.filterMap fun
    | .dispatch method => some method
    | _ => none

end Clause

/-- The signature of the method by which the entry point is reached. -/
def EntryPoint.signature (entry : EntryPoint) : String × String × String :=
  (entry.result, "accept", entry.visitor)

namespace Node

/-- What is said about neither the node itself nor its members is said about its
entry points. -/
theorem filterMap_clauses {α : Type} {f : Clause → Option α}
    (hnode : ∀ name base, f (.node name base) = none)
    (hmember : ∀ type name, f (.member type name) = none) (node : Node) :
    node.clauses.filterMap f =
      node.entryPoints.flatMap fun entry => (entryClauses entry).filterMap f := by
  have hmembers :
      (node.members.map fun member => Clause.member member.type member.name).filterMap f = [] := by
    simp [List.filterMap_map, hmember]
  rw [clauses, List.filterMap_cons_none (hnode node.name node.base), innerClauses,
    List.filterMap_append, hmembers, List.filterMap_flatMap, List.nil_append]

theorem overridings_clauses (node : Node) :
    Clause.overridings node.clauses = node.entryPoints.map EntryPoint.signature := by
  rw [Clause.overridings, filterMap_clauses (fun _ _ => rfl) (fun _ _ => rfl), List.map_eq_flatMap]
  rfl

theorem dispatches_clauses (node : Node) :
    Clause.dispatches node.clauses = node.entryPoints.map (·.dispatch) := by
  rw [Clause.dispatches, filterMap_clauses (fun _ _ => rfl) (fun _ _ => rfl), List.map_eq_flatMap]
  rfl

end Node

theorem Family.pureVirtuals_baseClauses (family : Family) :
    Clause.pureVirtuals family.baseClauses = family.results.map fun result =>
      (result, "accept", Naming.visitor family.basename result) := by
  rw [Clause.pureVirtuals, baseClauses, List.filterMap_map, ← List.filterMap_eq_map]
  rfl

theorem Family.pureVirtuals_visitorClauses (family : Family) :
    Clause.pureVirtuals family.visitorClauses = family.visitor.methods.map fun method =>
      ("T", method.name, method.variant) := by
  rw [Clause.pureVirtuals, visitorClauses, List.filterMap_map, ← List.filterMap_eq_map]
  rfl

/-! ## Overloads -/

namespace Naming

theorem visitor_injective (family : String) : Function.Injective (visitor family) := by
  intro left right h
  have hchars := congrArg String.toList h
  simp only [visitor, String.toList_append, List.append_left_inj, List.append_right_inj] at hchars
  exact String.toList_injective hchars

theorem dispatchMethod_eq_iff {left right family : String} :
    dispatchMethod left family = dispatchMethod right family ↔ left = right := by
  constructor
  · intro h
    have hchars := congrArg String.toList h
    simp only [dispatchMethod, String.toList_append, List.append_left_inj,
      List.append_right_inj] at hchars
    exact String.toList_injective hchars
  · rintro rfl
    rfl

end Naming

/-- The result type of a visit under the contract. -/
def Contract.result : Contract → String
  | .effect => Naming.noResult
  | .value result => result

namespace Family

variable {family : Family}

/-- The result types are that of the contract and, after it, that of rendered text. -/
theorem results_eq (family : Family) :
    family.results =
      family.contract.result :: if family.rendersText then [Naming.renderedText] else [] := by
  unfold results
  cases family.contract with
  | effect =>
    cases family.rendersText with
    | true => rfl
    | false => rfl
  | value result =>
    cases family.rendersText with
    | true => rfl
    | false => rfl

/-- No result type is listed twice: an identifier is no qualified name. -/
theorem results_nodup (h : family.WellNamed) : family.results.Nodup := by
  have hne : family.contract.result ≠ Naming.renderedText := by
    cases hc : family.contract with
    | effect => decide
    | value result =>
      rintro rfl
      exact absurd (h.result _ hc) (by decide)
  rw [results_eq]
  split
  · simpa using hne
  · simp

theorem visitors_nodup (h : family.WellNamed) :
    (family.results.map (Naming.visitor family.basename)).Nodup :=
  (results_nodup h).map (Naming.visitor_injective family.basename)

/-! ## Methods -/

theorem map_variant_methods (family : Family) :
    family.visitor.methods.map (·.variant) = family.variants.map (·.name) := by
  rw [visitor, List.map_map]
  rfl

/-- The method at a position is the one for the variant at that position. -/
theorem exists_of_getElem?_methods {j : Nat} {method : DispatchMethod}
    (h : family.visitor.methods[j]? = some method) :
    ∃ variant, family.variants[j]? = some variant ∧ method = family.dispatchMethod variant := by
  rw [visitor, List.getElem?_map, Option.map_eq_some_iff] at h
  obtain ⟨variant, hvariant, rfl⟩ := h
  exact ⟨variant, hvariant, rfl⟩

theorem methods_nodup (h : (family.variants.map (·.name)).Nodup) :
    (family.visitor.methods.map (·.name)).Nodup := by
  have hnames : family.visitor.methods.map (·.name) =
      (family.variants.map (·.name)).map (Naming.dispatchMethod · family.basename) := by
    rw [visitor, List.map_map, List.map_map]
    rfl
  rw [hnames]
  exact h.map fun _ _ heq => Naming.dispatchMethod_eq_iff.1 heq

end Family

/-- The node makes up what the base leaves open, and forwards each visit to the method at the
given position and to no other. -/
structure Node.Completes (family : Family) (i : Nat) (node : Node) : Prop where
  /-- the entry points are those that the base declares, in order -/
  entryPoints : node.entryPoints.map EntryPoint.signature =
    Clause.pureVirtuals (Line.clauses family.baseLines)
  /-- the lines of the node override all that the lines of the base leave open,
  and nothing else -/
  overridings : Clause.overridings (Line.clauses node.lines) =
    Clause.pureVirtuals (Line.clauses family.baseLines)
  /-- the lines of the node forward as the entry points do -/
  dispatches : Clause.dispatches (Line.clauses node.lines) = node.entryPoints.map (·.dispatch)
  /-- no two entry points accept the same visitor -/
  visitors_nodup : (node.entryPoints.map (·.visitor)).Nodup
  dispatch_eq_iff : ∀ entry ∈ node.entryPoints, ∀ (j : Nat) (method : DispatchMethod),
    family.visitor.methods[j]? = some method → (entry.dispatch = method.name ↔ j = i)

namespace Family

variable {family : Family}

theorem completes_node (h : family.WellNamed) (hnodup : (family.variants.map (·.name)).Nodup)
    {i : Nat} {variant : Variant} (hi : family.variants[i]? = some variant) :
    (family.node variant).Completes family i := by
  have hwords : (family.node variant).AllWords := allWords_node h (List.mem_of_getElem? hi)
  have hsignatures : (family.node variant).entryPoints.map EntryPoint.signature =
      Clause.pureVirtuals (Line.clauses family.baseLines) := by
    rw [clauses_baseLines h, pureVirtuals_baseClauses, node, List.map_map]
    rfl
  refine ⟨hsignatures, ?_, ?_, ?_, ?_⟩
  · rw [Node.clauses_lines hwords, Node.overridings_clauses, hsignatures]
  · rw [Node.clauses_lines hwords, Node.dispatches_clauses]
  · have hvisitors : (family.node variant).entryPoints.map (·.visitor) =
        family.results.map (Naming.visitor family.basename) := by
      rw [node, List.map_map]
      rfl
    rw [hvisitors]
    exact visitors_nodup h
  · intro entry hentry j method hmethod
    obtain ⟨result, -, rfl⟩ := List.mem_map.1 hentry
    obtain ⟨other, hother, rfl⟩ := exists_of_getElem?_methods hmethod
    have hnames : (family.variants.map (·.name))[i]? = some variant.name ∧
        (family.variants.map (·.name))[j]? = some other.name := by
      simp [List.getElem?_map, hi, hother]
    have hdispatch : (family.entryPoint variant result).dispatch =
        (family.dispatchMethod other).name ↔ variant.name = other.name :=
      Naming.dispatchMethod_eq_iff
    rw [hdispatch]
    constructor
    · intro heq
      obtain ⟨hlt, -⟩ := List.getElem?_eq_some_iff.1 hnames.2
      exact (List.getElem?_inj hlt hnodup).1 (by rw [hnames.1, hnames.2, heq])
    · rintro rfl
      exact congrArg Variant.name (Option.some.inj (hi.symm.trans hother))

end Family

/-! ## Families of a catalogue -/

namespace Catalogue

/-- The visitor of a family has one method per variant, in order and under different names,
and the node of each variant overrides exactly what the base leaves open: one entry point
for each of the visitors, no two of which are the same, forwarded to the method for the
variant and to no other. -/
theorem nodes_complete_base {ds : List FamilyDeclaration} {c : Catalogue} (h : load ds = .ok c)
    {family : Family} (hf : family ∈ c.families) :
    family.visitor.methods.length = family.variants.length ∧
      family.visitor.methods.map (·.variant) = family.variants.map (·.name) ∧
      (family.visitor.methods.map (·.name)).Nodup ∧
      Clause.pureVirtuals (Line.clauses family.visitor.lines) =
        family.visitor.methods.map (fun method => ("T", method.name, method.variant)) ∧
      family.nodes.map (·.name) = family.variants.map (·.name) ∧
      ∀ (i : Nat) (node : Node), family.nodes[i]? = some node → node.Completes family i := by
  have hnamed : family.WellNamed := wellNamed_of_mem h hf
  have hnodup := variants_nodup_of_mem h hf
  refine ⟨by simp [Family.visitor], family.map_variant_methods, Family.methods_nodup hnodup, ?_,
    family.map_name_nodes, ?_⟩
  · rw [(Family.clauses_visitor hnamed).2, Family.pureVirtuals_visitorClauses]
  · intro i node hnode
    rw [Family.nodes, List.getElem?_map, Option.map_eq_some_iff] at hnode
    obtain ⟨variant, hvariant, rfl⟩ := hnode
    exact Family.completes_node hnamed hnodup hvariant

end Catalogue

/-- The nodes of the statements of Lox complete their base: the second one is that of expression
statements, and it is forwarded to the second of the five methods. -/
theorem Lox.statement_nodes_complete_base :
    ∃ c, Catalogue.load declarations = .ok c ∧ ∃ family ∈ c.families,
      family.visitor.methods.map (·.variant) = ["Block", "Expression", "If", "While", "Var"] ∧
      ∃ node, family.nodes[1]? = some node ∧ node.name = "Expression" ∧
        node.Completes family 1 := by
  obtain ⟨c, hc, family, hfamily, hdenotes⟩ := Catalogue.exists_denotes_of_isOk catalogue_isOk
    (show declarations[1]? = some statements from rfl)
  have hmem : family ∈ c.families := List.mem_of_getElem? hfamily
  obtain ⟨-, hmethods, -, -, hnodes, hcompletes⟩ := Catalogue.nodes_complete_base hc hmem
  have hvariants : family.variants.map (·.name) = ["Block", "Expression", "If", "While", "Var"] :=
    map_eq_of_forall₂ (fun _ _ hv => hv.name) hdenotes.variants
  have hsecond : (family.nodes.map (·.name))[1]? = some "Expression" := by
    rw [hnodes, hvariants]
    rfl
  rw [List.getElem?_map, Option.map_eq_some_iff] at hsecond
  obtain ⟨node, hnode, hname⟩ := hsecond
  exact ⟨c, hc, family, hmem, hmethods.trans hvariants, node, hnode, hname, hcompletes 1 node hnode⟩

end TreeHeaders
