import TreeHeaders.Proofs.Inclusion
import TreeHeaders.Proofs.Overriding
import Mathlib.Data.List.Basic

set_option autoImplicit false

/-!
# Reading a family back

Nothing of a family is lost in its header. The result types of the entry points of the base tell
the contract and whether nodes are rendered, each node is a variant, and a member tells the name
of its field and, by the way it is stored, the type. The main statement is that reading the
header of a family of a loaded catalogue gives the family (`Catalogue.ofText_contents`).

The stored type of a field is ambiguous by itself: the handle of a family is the type of a child
in that family, and of a foreign child in a later one. A family never refers to itself as to
another one, so the name of the family decides.
-/

namespace TreeHeaders

open Text

/-! ## Fields -/

/-- The type of the fields of the family called `own` that are stored as the given type. -/
def FieldType.ofStored (own stored : String) : FieldType :=
  match Primitive.all.find? fun p => Naming.primitive p == stored with
  | some p => .primitive p
  | none =>
    if stored = tokenName then .token
    else if stored = Naming.handle own then .child
    else if stored = Naming.list own then .children
    else .foreignChild ((between? "" "Ptr" stored).getD stored)

/-- The field that is kept in a member of a node of the family called `own`. -/
def Field.ofMember (own : String) (member : Member) : Field where
  type := .ofStored own member.type
  name := (between? "" "_" member.name).getD member.name

namespace Naming

theorem handle_injective : Function.Injective handle := by
  intro left right h
  have hchars := congrArg String.toList h
  simp only [handle, String.toList_append, List.append_left_inj] at hchars
  exact String.toList_injective hchars

theorem list_ne_handle (left right : String) : list left ≠ handle right := by
  intro h
  have hlast := congrArg (fun text => text.toList.getLast?) h
  simp [list, handle] at hlast

end Naming

namespace FieldType

theorem ofStored_primitive (own : String) (p : Primitive) :
    ofStored own (Naming.primitive p) = .primitive p := by
  have hfind :
      Primitive.all.find? (fun q => Naming.primitive q == Naming.primitive p) = some p := by
    cases p <;> decide
  simp only [ofStored, hfind]

/-- What is stored as no primitive is told by its name. -/
theorem ofStored_of_ne {own stored : String} (hp : ∀ p, Naming.primitive p ≠ stored) :
    ofStored own stored =
      if stored = tokenName then .token
      else if stored = Naming.handle own then .child
      else if stored = Naming.list own then .children
      else .foreignChild ((between? "" "Ptr" stored).getD stored) := by
  have hfind : Primitive.all.find? (fun p => Naming.primitive p == stored) = none := by
    rw [List.find?_eq_none]
    intro p _
    simpa using hp p
  simp only [ofStored, hfind]

theorem primitive_ne_handle (name : String) (p : Primitive) :
    Naming.primitive p ≠ Naming.handle name := by
  refine (append_ne ?_).symm
  cases p <;> decide

theorem primitive_ne_list (name : String) (p : Primitive) :
    Naming.primitive p ≠ Naming.list name := by
  refine (append_ne ?_).symm
  cases p <;> decide

/-- The type of a field can be told from the type as which it is stored. -/
theorem ofStored_fieldType {own : String} {type : FieldType}
    (h : ∀ other, type = .foreignChild other → other ≠ own) :
    ofStored own (Naming.fieldType own type) = type := by
  have htoken : ∀ p, Naming.primitive p ≠ tokenName := by
    intro p
    cases p <;> decide
  have hhandle : ∀ name, Naming.handle name ≠ tokenName := fun name => append_ne (by decide)
  have hlist : ∀ name, Naming.list name ≠ tokenName := fun name => append_ne (by decide)
  cases type with
  | primitive p => exact ofStored_primitive own p
  | token => rw [Naming.fieldType, ofStored_of_ne htoken, if_pos rfl]
  | child =>
    rw [Naming.fieldType, ofStored_of_ne (primitive_ne_handle own), if_neg (hhandle own),
      if_pos rfl]
  | foreignChild other =>
    have hne : Naming.handle other ≠ Naming.handle own :=
      fun heq => h other rfl (Naming.handle_injective heq)
    have hbetween : between? "" "Ptr" (Naming.handle other) = some other :=
      between?_eq_some_iff.2 (by rw [String.empty_append, Naming.handle])
    rw [Naming.fieldType, ofStored_of_ne (primitive_ne_handle other), if_neg (hhandle other),
      if_neg hne, if_neg (Naming.list_ne_handle own other).symm, hbetween]
    rfl
  | children =>
    rw [Naming.fieldType, ofStored_of_ne (primitive_ne_list own), if_neg (hlist own),
      if_neg (Naming.list_ne_handle own own), if_pos rfl]

end FieldType

theorem Family.ofMember_member {family : Family} {field : Field}
    (h : ∀ other, field.type = .foreignChild other → other ≠ family.basename) :
    Field.ofMember family.basename (family.member field) = field := by
  have hname : between? "" "_" (Naming.member field.name) = some field.name :=
    between?_eq_some_iff.2 (by rw [String.empty_append, Naming.member])
  have htype := FieldType.ofStored_fieldType h
  simp only [Field.ofMember, member, htype, hname, Option.getD_some]

/-! ## Variants -/

namespace Clause

/-- Does the clause open a node type? -/
def isNode : Clause → Bool
  | .node _ _ => true
  | _ => false

/-- The variants of the family called `own`: each node type is one, and its fields are kept in
the members up to the next node type. -/
def variants (own : String) : List Clause → List Variant
  | [] => []
  | .node name _ :: rest =>
    { name, fields := (members (rest.takeWhile (!·.isNode))).map (Field.ofMember own) } ::
      variants own rest
  | _ :: rest => variants own rest

theorem variants_append {own : String} {front : List Clause}
    (h : ∀ clause ∈ front, clause.isNode = false) (rest : List Clause) :
    variants own (front ++ rest) = variants own rest := by
  induction front with
  | nil => rfl
  | cons clause front ih =>
    have hclause : clause.isNode = false := h clause (by simp)
    have ih := ih fun other hother => h other (List.mem_cons_of_mem clause hother)
    cases clause with
    | node name base => exact absurd hclause (by simp [isNode])
    | pureVirtual result method parameter => exact ih
    | overriding result method parameter => exact ih
    | dispatch method => exact ih
    | member type name => exact ih

end Clause

namespace Node

theorem isNode_innerClauses (node : Node) :
    ∀ clause ∈ node.innerClauses, clause.isNode = false := by
  intro clause hclause
  rcases List.mem_append.1 hclause with hmember | hentry
  · obtain ⟨member, -, rfl⟩ := List.mem_map.1 hmember
    rfl
  · obtain ⟨entry, -, hmem⟩ := List.mem_flatMap.1 hentry
    simp only [entryClauses, List.mem_cons, List.not_mem_nil, or_false] at hmem
    rcases hmem with rfl | rfl
    · rfl
    · rfl

/-- The members of a node type end where the next node type is opened. -/
theorem members_takeWhile_innerClauses (node : Node) {rest : List Clause}
    (hrest : rest.takeWhile (!·.isNode) = []) :
    Clause.members ((node.innerClauses ++ rest).takeWhile (!·.isNode)) = node.members := by
  have hinner : ∀ clause ∈ node.innerClauses, (!clause.isNode) = true := by
    intro clause hclause
    rw [isNode_innerClauses node clause hclause]
    rfl
  rw [List.takeWhile_append_of_pos hinner, hrest, List.append_nil]
  exact Clause.members_node node

end Node

namespace Family

variable {family : Family}

/-- The node types of variants say what the variants are. -/
theorem variants_nodeClauses {variants : List Variant}
    (h : ∀ variant ∈ variants, ∀ field ∈ variant.fields, ∀ other,
      field.type = .foreignChild other → other ≠ family.basename) :
    Clause.variants family.basename ((variants.map family.node).flatMap Node.clauses) =
      variants := by
  induction variants with
  | nil => rfl
  | cons variant rest ih =>
    -- what follows is nothing or opens the next node type, so the members of
    -- this one end before it
    have hrest : ((rest.map family.node).flatMap Node.clauses).takeWhile (!·.isNode) = [] := by
      cases rest with
      | nil => rfl
      | cons next rest => rfl
    have hfields : (family.node variant).members.map (Field.ofMember family.basename) =
        variant.fields := by
      rw [node, List.map_map]
      refine (List.map_congr_left fun field hfield => ?_).trans (List.map_id variant.fields)
      exact ofMember_member (h variant (by simp) field hfield)
    have ih := ih fun other hother => h other (List.mem_cons_of_mem variant hother)
    rw [List.map_cons, List.flatMap_cons, Node.clauses, List.cons_append, Clause.variants,
      Node.members_takeWhile_innerClauses _ hrest, hfields,
      Clause.variants_append (Node.isNode_innerClauses _), ih]
    rfl

theorem isNode_of_mem_virtualClauses {clause : Clause}
    (h : clause ∈ family.baseClauses ++ family.visitorClauses) : clause.isNode = false := by
  rcases List.mem_append.1 h with hbase | hvisitor
  · obtain ⟨result, -, rfl⟩ := List.mem_map.1 hbase
    rfl
  · obtain ⟨method, -, rfl⟩ := List.mem_map.1 hvisitor
    rfl

end Family

/-! ## Results -/

/-- The contract under which nodes are visited for the result types. -/
def Contract.ofResults : List String → Contract
  | [] => .effect
  | primary :: _ => if primary = Naming.noResult then .effect else .value primary

/-- The result types for which nodes can be visited. -/
def Clause.results (clauses : List Clause) : List String :=
  (pureVirtuals clauses).filterMap fun (result, method, _) =>
    if method = "accept" then some result else none

namespace Family

variable {family : Family}

theorem ofResults_results (h : family.WellNamed) :
    Contract.ofResults family.results = family.contract := by
  rw [results_eq, Contract.ofResults]
  cases hc : family.contract with
  | effect => exact if_pos rfl
  | value result =>
    refine if_neg ?_
    rintro rfl
    exact absurd (h.result _ hc) (by decide)

theorem length_results (family : Family) :
    decide (1 < family.results.length) = family.rendersText := by
  rw [results_eq]
  cases family.rendersText with
  | true => rfl
  | false => rfl

/-- The result types are those of the entry points: no method of the visitor is
called like one. -/
theorem results_clauses (family : Family) : Clause.results family.clauses = family.results := by
  have hnodes : Clause.pureVirtuals (family.nodes.flatMap Node.clauses) = [] := by
    rw [Clause.pureVirtuals, List.filterMap_flatMap]
    simp [Node.filterMap_clauses, Node.entryClauses]
  -- methods of the visitor are pure virtual, too, but their names start in another way
  have hmethod : ∀ method : DispatchMethod, method ∈ family.visitor.methods →
      method.name ≠ "accept" := by
    intro method hmethod heq
    obtain ⟨variant, -, rfl⟩ := List.mem_map.1 hmethod
    have hhead := congrArg (fun text => text.toList.head?) heq
    simp [dispatchMethod, Naming.dispatchMethod] at hhead
  have hpure : Clause.pureVirtuals family.clauses =
      family.results.map (fun result =>
        (result, "accept", Naming.visitor family.basename result)) ++
      family.visitor.methods.map (fun method => ("T", method.name, method.variant)) := by
    rw [← pureVirtuals_baseClauses, ← pureVirtuals_visitorClauses]
    rw [Clause.pureVirtuals] at hnodes
    simp only [Clause.pureVirtuals, clauses, List.filterMap_append, hnodes, List.append_nil]
  have hvisitor : (family.visitor.methods.filterMap fun method =>
      if method.name = "accept" then some "T" else none) = [] := by
    rw [List.filterMap_eq_nil_iff]
    intro method hmem
    rw [if_neg (hmethod method hmem)]
  rw [Clause.results, hpure, List.filterMap_append, List.filterMap_map, List.filterMap_map]
  simpa [Function.comp_def] using hvisitor

end Family

/-! ## Families -/

/-- The family called `own` of which the clauses speak. -/
def Family.ofClauses (own : String) (clauses : List Clause) : Family where
  basename := own
  contract := .ofResults (Clause.results clauses)
  rendersText := 1 < (Clause.results clauses).length
  variants := Clause.variants own clauses

/-- The family called `own` of which the text speaks. -/
def Family.ofText (own text : String) : Family :=
  .ofClauses own (Clause.ofText text)

theorem Family.ofClauses_clauses {family : Family} (h : family.WellNamed)
    (hforeign : ∀ variant ∈ family.variants, ∀ field ∈ variant.fields, ∀ other,
      field.type = .foreignChild other → other ≠ family.basename) :
    ofClauses family.basename family.clauses = family := by
  have hvariants : Clause.variants family.basename family.clauses = family.variants := by
    rw [clauses, Clause.variants_append fun _ => isNode_of_mem_virtualClauses, nodes]
    exact variants_nodeClauses hforeign
  rw [ofClauses, results_clauses, ofResults_results h, length_results, hvariants]

namespace Catalogue

variable {ds : List FamilyDeclaration} {c : Catalogue}

/-- No family refers to itself as to another one. -/
theorem foreignChild_ne_basename (h : load ds = .ok c) {i : Nat} {family : Family}
    (hi : c.families[i]? = some family) {variant : Variant} (hv : variant ∈ family.variants)
    {field : Field} (hf : field ∈ variant.fields) {other : String}
    (ht : field.type = .foreignChild other) : other ≠ family.basename := by
  rintro rfl
  obtain ⟨j, earlier, hlt, hj, hname⟩ := exists_earlier_of_foreignChild h hi hv hf ht
  obtain ⟨hlength, -⟩ := List.getElem?_eq_some_iff.1 hj
  have hsame : (c.families.map (·.basename))[j]? = (c.families.map (·.basename))[i]? := by
    rw [List.getElem?_map, List.getElem?_map, hj, hi, Option.map_some, Option.map_some, hname]
  have heq : j = i :=
    (List.getElem?_inj (by simpa using hlength) (basenames_nodup h)).1 hsame
  omega

/-- Reading the text of the header of a family of a loaded catalogue gives the family. -/
theorem ofText_contents (h : load ds = .ok c) {config : Config} (hc : config.Accepted)
    {family : Family} (hf : family ∈ c.families) :
    Family.ofText family.basename (family.header config).contents = family := by
  have hnamed : family.WellNamed := wellNamed_of_mem h hf
  obtain ⟨i, hi⟩ := List.mem_iff_getElem?.1 hf
  rw [Family.ofText, Family.clauses_contents hnamed hc]
  exact Family.ofClauses_clauses hnamed fun variant hv field hfield other ht =>
    foreignChild_ne_basename h hi hv hfield ht

/-- The families of a loaded catalogue are those of which the texts of its headers speak. -/
theorem map_ofText_headers (h : load ds = .ok c) {config : Config} (hc : config.Accepted) :
    (c.headers config).map (fun header => Family.ofText header.family header.contents) =
      c.families := by
  rw [headers, List.map_map]
  refine (List.map_congr_left fun family hfamily => ?_).trans (List.map_id c.families)
  exact ofText_contents h hc hfamily

end Catalogue

end TreeHeaders
