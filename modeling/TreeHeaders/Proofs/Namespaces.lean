import TreeHeaders.CommandLine.Value
import TreeHeaders.Proofs.LineEnds
import Mathlib.Logic.ExistsUnique

set_option autoImplicit false

/-!
# Which texts are namespaces

A namespace is accepted by splitting it at `::` from the left and looking at the pieces. Here it
is said without splitting: a namespace is a list of parts, at least one, joined by `::`
(`CommandLine.NamespaceParts`). The main statement is that the two agree on every text, that the
parts of a namespace are determined by it, and that the validator gives back what it accepts
(`CommandLine.namespaces_accepted`).

Splitting from the left is delicate where colons meet: `a:::b` has the pieces `a` and `:b`. No
part holds a colon, so a join of parts is split between its parts and nowhere else.
-/

namespace TreeHeaders

/-! ## Splitting what was joined -/

namespace Text

variable {sep : Char}

theorem splitAtPair_cons_of_ne {c : Char} (h : c ≠ sep) (cs : List Char) :
    splitAtPair sep (c :: cs) = consPiece c (splitAtPair sep cs) := by
  cases cs with
  | nil => rfl
  | cons d ds => rw [splitAtPair, if_neg fun hc => h hc.1]

theorem splitAtPair_of_notMem {piece : List Char} (h : sep ∉ piece) :
    splitAtPair sep piece = [piece] := by
  induction piece with
  | nil => rfl
  | cons c cs ih =>
    rw [List.mem_cons, not_or] at h
    rw [splitAtPair_cons_of_ne (Ne.symm h.1), ih h.2]
    rfl

/-- A piece without the separating character ends at the first separator, even if more of these
characters follow. -/
theorem splitAtPair_append {piece : List Char} (h : sep ∉ piece) (rest : List Char) :
    splitAtPair sep (piece ++ [sep, sep] ++ rest) = piece :: splitAtPair sep rest := by
  induction piece with
  | nil => simp [splitAtPair]
  | cons c cs ih =>
    rw [List.mem_cons, not_or] at h
    rw [List.cons_append, List.cons_append, splitAtPair_cons_of_ne (Ne.symm h.1), ih h.2]
    rfl

/-- Splitting undoes joining, if no piece holds the separating character. -/
theorem splitAtPair_joinPieces {pieces : List (List Char)} (hne : pieces ≠ [])
    (h : ∀ piece ∈ pieces, sep ∉ piece) :
    splitAtPair sep (joinPieces [sep, sep] pieces) = pieces := by
  fun_induction joinPieces [sep, sep] pieces with
  | case1 => exact absurd rfl hne
  | case2 piece => exact splitAtPair_of_notMem (h piece (by simp))
  | case3 piece next pieces ih =>
    obtain ⟨hpiece, hrest⟩ := List.forall_mem_cons.1 h
    rw [splitAtPair_append hpiece, ih (by simp) hrest]

end Text

/-! ## Parts -/

namespace CommandLine

/-- The parts of a namespace, from the outermost one: there is at least one, and each is an
identifier that starts with a letter. -/
structure NamespaceParts (parts : List String) : Prop where
  ne_nil : parts ≠ []
  identifier : ∀ part ∈ parts, isIdentifier part = true
  letter : ∀ part ∈ parts, ∃ first ∈ part.toList.head?, first.isAlpha = true

variable {text : String} {parts : List String}

theorem isNamespacePart_toList_iff {part : String} :
    isNamespacePart part.toList = true ↔
      isIdentifier part = true ∧ ∃ first ∈ part.toList.head?, first.isAlpha = true := by
  rw [isNamespacePart, Bool.and_eq_true, String.ofList_toList, Option.any_eq_true]
  simp only [Option.mem_def]

theorem namespaceParts_iff :
    NamespaceParts parts ↔ parts ≠ [] ∧ ∀ part ∈ parts, isNamespacePart part.toList = true := by
  constructor
  · intro h
    refine ⟨h.ne_nil, fun part hpart => ?_⟩
    exact isNamespacePart_toList_iff.2 ⟨h.identifier part hpart, h.letter part hpart⟩
  · rintro ⟨hne, hparts⟩
    have hboth := fun part hpart => isNamespacePart_toList_iff.1 (hparts part hpart)
    exact ⟨hne, fun part hpart => (hboth part hpart).1, fun part hpart => (hboth part hpart).2⟩

theorem toList_intercalate_colons (parts : List String) :
    ("::".intercalate parts).toList = Text.joinPieces [':', ':'] (parts.map String.toList) := by
  rw [Text.joinPieces_eq_intercalate, String.toList_intercalate]
  rfl

/-- The pieces of a joined namespace are its parts. -/
theorem NamespaceParts.splitAtPair_intercalate (h : NamespaceParts parts) :
    Text.splitAtPair ':' ("::".intercalate parts).toList = parts.map String.toList := by
  rw [toList_intercalate_colons]
  refine Text.splitAtPair_joinPieces (by simpa using h.ne_nil) ?_
  rintro _ hpiece hcolon
  obtain ⟨part, hpart, rfl⟩ := List.mem_map.1 hpiece
  have hletter := Identifier.isPart_of_isIdentifier (h.identifier part hpart) ':' hcolon
  exact absurd hletter (by decide)

/-- Different parts make different namespaces. -/
theorem NamespaceParts.intercalate_inj {others : List String} (h : NamespaceParts parts)
    (ho : NamespaceParts others) (heq : "::".intercalate parts = "::".intercalate others) :
    parts = others := by
  have hpieces : parts.map String.toList = others.map String.toList := by
    rw [← h.splitAtPair_intercalate, heq, ho.splitAtPair_intercalate]
  exact List.map_injective_iff.2 (fun _ _ => String.toList_injective) hpieces

/-- A text is a namespace exactly when it is joined from parts. -/
theorem isNamespace_iff_exists_namespaceParts :
    isNamespace text = true ↔ ∃ parts, NamespaceParts parts ∧ text = "::".intercalate parts := by
  constructor
  · intro h
    -- the parts are the pieces into which the text is split
    refine ⟨(Text.splitAtPair ':' text.toList).map String.ofList, namespaceParts_iff.2 ⟨?_, ?_⟩, ?_⟩
    · simpa using Text.splitAtPair_ne_nil ':' text.toList
    · intro part hpart
      obtain ⟨piece, hpiece, rfl⟩ := List.mem_map.1 hpart
      rw [String.toList_ofList]
      exact List.all_eq_true.1 h piece hpiece
    · apply String.toList_injective
      rw [toList_intercalate_colons, List.map_map]
      simp [Function.comp_def, Text.joinPieces_splitAtPair]
  · rintro ⟨parts, hparts, rfl⟩
    rw [isNamespace, hparts.splitAtPair_intercalate, List.all_map, List.all_eq_true]
    exact (namespaceParts_iff.1 hparts).2

/-! ## The validator -/

/-- The validator of namespaces accepts a text exactly when it is the join of a list of parts,
which is then the only one, and gives the text back unchanged. Every other text is refused. -/
theorem namespaces_accepted (text : String) :
    (∀ result, parseNamespace text = .ok result ↔
      result = text ∧ ∃! parts, NamespaceParts parts ∧ text = "::".intercalate parts) ∧
    ((∃ refusal, parseNamespace text = .error refusal) ↔
      ¬ ∃ parts, NamespaceParts parts ∧ text = "::".intercalate parts) := by
  have hunique : (∃! parts, NamespaceParts parts ∧ text = "::".intercalate parts) ↔
      isNamespace text = true := by
    rw [isNamespace_iff_exists_namespaceParts]
    refine ⟨ExistsUnique.exists, ?_⟩
    rintro ⟨parts, hparts, htext⟩
    refine ⟨parts, ⟨hparts, htext⟩, ?_⟩
    rintro others ⟨hothers, hjoin⟩
    exact hothers.intercalate_inj hparts (hjoin.symm.trans htext)
  rw [← isNamespace_iff_exists_namespaceParts, hunique, parseNamespace]
  split
  · next h => simp [h, eq_comm]
  · next h => simp [h]

/-- A lone colon is no separator, and three of them are a separator and a colon. -/
example : isNamespace "lang::ast" = true ∧ isNamespace "lang:ast" = false ∧
    isNamespace "lang:::ast" = false ∧ isNamespace "lang::::ast" = false := by
  decide +kernel

end CommandLine

end TreeHeaders
