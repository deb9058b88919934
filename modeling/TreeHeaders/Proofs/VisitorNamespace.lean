import TreeHeaders.Proofs.DeclaredNames
import TreeHeaders.Proofs.Guard

set_option autoImplicit false

/-!
# Visitor namespaces

The namespace of a visitor is the basename of the family in lower case: a name that nobody has
written, and that loading reserves without looking at its form. This module says which of
these names can be used.

Lower case keeps a name well formed. It cannot make a name reserved either: every `_`
stays where it is, and no capital is left to follow one. What it can do is turn a
basename into a keyword, and that is the only way in which the namespace of a visitor can
fail to be an identifier.
-/

namespace TreeHeaders

/-! ## Lower case -/

namespace Identifier

theorem isWellFormed_map_toLower {cs : List Char} (h : isWellFormed cs = true) :
    isWellFormed (cs.map Char.toLower) = true := by
  cases cs with
  | nil => exact absurd h (by decide)
  | cons c cs =>
    simp only [isWellFormed, Bool.and_eq_true, List.all_eq_true] at h
    simp only [List.map_cons, isWellFormed, Bool.and_eq_true, List.all_eq_true, List.mem_map]
    refine ⟨isStart_toLower h.1, ?_⟩
    rintro _ ⟨d, hd, rfl⟩
    exact isPart_toLower (h.2 d hd)

theorem hasDoubleUnderscore_map_toLower (cs : List Char) :
    hasDoubleUnderscore (cs.map Char.toLower) = hasDoubleUnderscore cs := by
  fun_induction hasDoubleUnderscore cs with
  | case1 c d cs ih =>
    rw [List.map_cons] at ih
    simp only [List.map_cons, hasDoubleUnderscore, toLower_eq_underscore_iff, ih]
  | case2 cs hshort =>
    cases cs with
    | nil => rfl
    | cons c cs =>
      cases cs with
      | nil => rfl
      | cons d ds => exact absurd rfl (hshort c d ds)

/-- No name in lower case starts with `_` and a capital letter. -/
theorem startsLikeReserved_map_toLower (cs : List Char) :
    startsLikeReserved (cs.map Char.toLower) = false := by
  match cs with
  | [] => rfl
  | [_] => rfl
  | _ :: _ :: _ => simp only [List.map_cons, startsLikeReserved, isUpper_toLower, Bool.and_false]

end Identifier

namespace Naming

open Identifier

variable {name : String}

theorem isWellFormed_lower (h : isIdentifier name = true) :
    isWellFormed (lower name).toList = true := by
  rw [lower, String.toList_ofList]
  exact isWellFormed_map_toLower (isWellFormed_of_isIdentifier h)

theorem isReserved_lower (h : isIdentifier name = true) :
    isReserved (lower name).toList = false := by
  rw [lower, String.toList_ofList, isReserved, hasDoubleUnderscore_map_toLower,
    startsLikeReserved_map_toLower, not_hasDoubleUnderscore h]
  rfl

/-- An identifier in lower case is an identifier unless it is a keyword. -/
theorem isIdentifier_lower_iff (h : isIdentifier name = true) :
    isIdentifier (lower name) = true ↔ lower name ∉ keywords := by
  simp [isIdentifier, isWellFormed_lower h, isReserved_lower h]

end Naming

/-! ## Namespaces of a catalogue -/

namespace Catalogue

/-- The namespace of a visitor is well formed and not reserved, and it is an identifier exactly
when the basename in lower case is no keyword. -/
theorem visitorNamespace_usable_iff {ds : List FamilyDeclaration} {c : Catalogue}
    (h : load ds = .ok c) {family : Family} (hf : family ∈ c.families) :
    Identifier.isWellFormed family.visitor.namespaceName.toList = true ∧
      Identifier.isReserved family.visitor.namespaceName.toList = false ∧
      (isIdentifier family.visitor.namespaceName = true ↔
        Naming.lower family.basename ∉ Identifier.keywords) := by
  have hbasename : isIdentifier family.basename = true := (wellNamed_of_mem h hf).basename
  exact ⟨Naming.isWellFormed_lower hbasename, Naming.isReserved_lower hbasename,
    Naming.isIdentifier_lower_iff hbasename⟩

/-- A family whose name is that of a keyword but for its case. -/
def keywordInCapitals : List FamilyDeclaration :=
  [{ basename := "Class", variants := [{ name := "Method" }] }]

/-- A basename that is a keyword but for its case makes a family, and its header opens a
namespace that is called like the keyword. -/
theorem visitorNamespace_of_capital_is_keyword :
    ∃ c, load keywordInCapitals = .ok c ∧
      ∃ family ∈ c.families, family.visitor.namespaceName = "class" ∧
        isIdentifier family.visitor.namespaceName = false ∧
        Line.flat "namespace class \x7b" ∈ family.bodyLines := by
  obtain ⟨c, hc, family, hfamily, hname⟩ := exists_family_of_isOk
    (show (load keywordInCapitals).isOk = true by decide +kernel)
    (show "Class" ∈ keywordInCapitals.map (·.basename) by decide)
  have hnamespace : family.visitor.namespaceName = "class" := by
    have hlower : Naming.lower "Class" = "class" := by decide
    rw [← hlower, ← hname]
    rfl
  refine ⟨c, hc, family, hfamily, hnamespace, ?_, ?_⟩
  · rw [hnamespace]
    decide
  · simp [Family.bodyLines, Visitor.declarationLines, Visitor.enclosed, hnamespace]

end Catalogue

/-- The namespaces of the visitors of Lox can be used. -/
theorem Lox.visitorNamespaces_usable :
    ∃ c, Catalogue.load declarations = .ok c ∧
      ∃ family ∈ c.families, family.visitor.namespaceName = "stmt" ∧
        isIdentifier family.visitor.namespaceName = true := by
  obtain ⟨c, hc, family, hfamily, hname⟩ := Catalogue.exists_family_of_isOk catalogue_isOk
    (show "Stmt" ∈ declarations.map (·.basename) by decide)
  obtain ⟨-, -, hiff⟩ := Catalogue.visitorNamespace_usable_iff hc hfamily
  refine ⟨c, hc, family, hfamily, ?_, ?_⟩
  · have hlower : Naming.lower "Stmt" = "stmt" := by decide
    rw [← hlower, ← hname]
    rfl
  · rw [hiff, hname]
    decide

end TreeHeaders
