import TreeHeaders.Proofs.DerivedNames
import Mathlib.Logic.Basic

set_option autoImplicit false

/-!
# Aliases for owned nodes

A family has two aliases, one for the handle to a node and one for a list of handles. They
are called like the family with `Ptr` or `List` after it, and loading reserves these names
without looking at their form.

A capital after an identifier cannot make a keyword, nor put two `_` together. But it makes a
reserved name of a lone `_`, which is an identifier. What keeps `_` from being a family is the
namespace of the visitor: it is the basename in lower case, and has to be another name than the
basename. So every basename has a capital, and its aliases can be used
(`Catalogue.aliases_usable`).
-/

namespace TreeHeaders

/-! ## A capital after an identifier -/

namespace Identifier

theorem any_isUpper_keyword : ∀ keyword ∈ keywords, keyword.toList.any Char.isUpper = false := by
  decide +kernel

variable {capital : Char} {xs ys : List Char}

theorem ne_underscore_of_isUpper (h : capital.isUpper = true) : capital ≠ '_' := by
  rintro rfl
  exact absurd h (by decide)

/-- A capital makes a start of reserved names of a lone `_` only. -/
theorem startsLikeReserved_append_capital (hne : xs ≠ []) (hx : startsLikeReserved xs = false)
    (hy : ys.head? = some capital) (h : capital.isUpper = true) :
    startsLikeReserved (xs ++ ys) = true ↔ xs = ['_'] := by
  obtain ⟨rest, rfl⟩ := List.head?_eq_some_iff.1 hy
  match xs with
  | [] => exact absurd rfl hne
  | [c] => simp [startsLikeReserved, h]
  | c :: d :: cs =>
    have hsame : startsLikeReserved (c :: d :: cs ++ capital :: rest) = false := hx
    rw [hsame]
    simp

variable {name suffix : String}

theorem formed_append_capital (hn : isIdentifier name = true) (hs : isIdentifier suffix = true)
    (hcapital : suffix.toList.head? = some capital) (h : capital.isUpper = true) :
    Formed (name ++ suffix) := by
  refine ⟨?_, ?_⟩
  · rw [String.toList_append]
    exact isWellFormed_append (isWellFormed_of_isIdentifier hn) (isPart_of_isIdentifier hs)
  · intro hkeyword
    have hnone := any_isUpper_keyword _ hkeyword
    rw [String.toList_append, List.any_append, Bool.or_eq_false_iff] at hnone
    have hlower := List.any_eq_false.1 hnone.2 capital (List.mem_of_mem_head? hcapital)
    exact hlower h

/-- An identifier with another one after it that starts with a capital is an identifier, unless
the first one is a lone `_`. -/
theorem isIdentifier_append_capital_iff (hn : isIdentifier name = true)
    (hs : isIdentifier suffix = true) (hcapital : suffix.toList.head? = some capital)
    (h : capital.isUpper = true) : isIdentifier (name ++ suffix) = true ↔ name ≠ "_" := by
  have hdouble : hasDoubleUnderscore (name ++ suffix).toList = false := by
    rw [← Bool.not_eq_true, String.toList_append, hasDoubleUnderscore_append,
      not_hasDoubleUnderscore hn, not_hasDoubleUnderscore hs, hcapital]
    simp [ne_underscore_of_isUpper h]
  have hne : name.toList ≠ [] := String.toList_eq_nil_iff.not.2 (ne_empty_of_isIdentifier hn)
  rw [(formed_append_capital hn hs hcapital h).isIdentifier_iff, isReserved, hdouble,
    Bool.false_or, ← Bool.not_eq_true, String.toList_append,
    startsLikeReserved_append_capital hne (startsLikeReserved_of_isIdentifier hn) hcapital h,
    ne_eq, ← String.toList_inj]
  rfl

end Identifier

namespace Naming

variable {name : String}

theorem isIdentifier_handle_iff (h : isIdentifier name = true) :
    isIdentifier (handle name) = true ↔ name ≠ "_" := by
  have hcapital : "Ptr".toList.head? = some 'P' := rfl
  exact Identifier.isIdentifier_append_capital_iff h (by decide) hcapital rfl

theorem isIdentifier_list_iff (h : isIdentifier name = true) :
    isIdentifier (list name) = true ↔ name ≠ "_" := by
  have hcapital : "List".toList.head? = some 'L' := rfl
  exact Identifier.isIdentifier_append_capital_iff h (by decide) hcapital rfl

end Naming

/-! ## Families of a catalogue -/

namespace Catalogue

/-- The lines of a header that declare aliases declare two names, both identifiers, and there is
a capital letter in the basename. That the basename is an identifier would not be enough: a lone
`_` is one, the only one whose aliases could not be used. -/
theorem aliases_usable {ds : List FamilyDeclaration} {c : Catalogue} (h : load ds = .ok c) :
    (∀ family ∈ c.families,
      Line.scopeNames 0 family.aliasLines = [family.basename ++ "Ptr", family.basename ++ "List"] ∧
      isIdentifier (family.basename ++ "Ptr") = true ∧
      isIdentifier (family.basename ++ "List") = true ∧
      ∃ letter ∈ family.basename.toList, letter.isUpper = true) ∧
    (∀ name, isIdentifier name = true →
      (isIdentifier (name ++ "Ptr") = true ↔ name ≠ "_") ∧
      (isIdentifier (name ++ "List") = true ↔ name ≠ "_")) ∧
    isIdentifier "_" = true := by
  refine ⟨?_, ?_, by decide⟩
  · intro family hf
    have hnamed : family.WellNamed := wellNamed_of_mem h hf
    obtain ⟨letter, hletter, hupper⟩ := exists_isUpper_basename h hf
    have hne : family.basename ≠ "_" := by
      intro hbasename
      rw [hbasename] at hletter
      obtain rfl : letter = '_' := by simpa using hletter
      exact Identifier.ne_underscore_of_isUpper hupper rfl
    exact ⟨(Family.yields_aliasLines hnamed).names,
      (Naming.isIdentifier_handle_iff hnamed.basename).2 hne,
      (Naming.isIdentifier_list_iff hnamed.basename).2 hne, letter, hletter, hupper⟩
  · intro name hname
    exact ⟨Naming.isIdentifier_handle_iff hname, Naming.isIdentifier_list_iff hname⟩

/-- A family whose name has `_` at both ends, and a capital between them. -/
def enclosedCapital : List FamilyDeclaration :=
  [{ basename := "_eX_", variants := [{ name := "Leaf" }] }]

/-- Its aliases can be used, but those of a lone `_` could not. -/
theorem enclosedCapital_aliases_usable :
    ∃ c, load enclosedCapital = .ok c ∧ ∃ family ∈ c.families,
      Line.scopeNames 0 family.aliasLines = ["_eX_Ptr", "_eX_List"] ∧
      isIdentifier "_eX_Ptr" = true ∧ isIdentifier "_eX_List" = true ∧
      isIdentifier "_" = true ∧ isIdentifier "_Ptr" = false ∧ isIdentifier "_List" = false := by
  obtain ⟨c, hc, family, hfamily, hname⟩ := exists_family_of_isOk
    (show (load enclosedCapital).isOk = true by decide +kernel)
    (show "_eX_" ∈ enclosedCapital.map (·.basename) by decide)
  obtain ⟨hfamilies, hnames, hlone⟩ := aliases_usable hc
  obtain ⟨hlines, hhandle, hlist, -⟩ := hfamilies family hfamily
  obtain ⟨hlonehandle, hlonelist⟩ := hnames "_" hlone
  rw [hname] at hlines hhandle hlist
  refine ⟨c, hc, family, hfamily, hlines, hhandle, hlist, hlone, ?_, ?_⟩
  · exact Bool.eq_false_iff.2 fun hyes => hlonehandle.1 hyes rfl
  · exact Bool.eq_false_iff.2 fun hyes => hlonelist.1 hyes rfl

/-- A family `_` would share its name with the namespace of its visitor. -/
example : load [{ basename := "_", variants := [{ name := "Leaf" }] }] =
    .error (.nameClash "_" "_" (.family "_")) := by
  rfl

end Catalogue

end TreeHeaders
