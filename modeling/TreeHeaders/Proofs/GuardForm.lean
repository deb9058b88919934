import TreeHeaders.CommandLine.Value
import TreeHeaders.Proofs.Guard
import Mathlib.Data.List.Nodup

set_option autoImplicit false

/-!
# The form of inclusion guards

A guard is a macro, and names with `__` or with a `_` in front are not for programs to take. The
guard of a family keeps clear of them whatever the namespace and the extension are, even if they
were never checked: `Catalogue.guards_wellFormed`. What is left of a text without letters and
digits would be a lone `_`, but a basename has a capital in it: in lower case it is the
namespace of the visitor, and that name has to be another one.
-/

namespace TreeHeaders

/-! ## Capitals in basenames -/

theorem Naming.exists_isUpper_of_lower_ne {name : String} (h : lower name ≠ name) :
    ∃ c ∈ name.toList, c.isUpper = true := by
  by_contra hnone
  refine h (String.toList_injective ?_)
  have hsame : ∀ c ∈ name.toList, c.toLower = id c := by
    intro c hc
    rcases Identifier.toLower_cases c with ⟨-, hsame⟩ | ⟨hupper, -⟩
    · exact hsame
    · exact absurd ⟨c, hc, hupper⟩ hnone
  rw [lower, String.toList_ofList, List.map_congr_left hsame, List.map_id]

/-- The basename and the namespace of the visitor are two names. -/
theorem Admissible.lower_basename_ne {ds : List FamilyDeclaration} (h : Admissible ds)
    {d : FamilyDeclaration} (hd : d ∈ ds) : Naming.lower d.basename ≠ d.basename := by
  have hfamily : d.reservedNames.Nodup :=
    (List.nodup_flatMap.1 h.flatMap_reservedNames_nodup).1 d hd
  intro heq
  simp [FamilyDeclaration.reservedNames, heq] at hfamily

/-- Every basename has a capital letter in it. -/
theorem Catalogue.exists_isUpper_basename {ds : List FamilyDeclaration} {c : Catalogue}
    (h : load ds = .ok c) {family : Family} (hf : family ∈ c.families) :
    ∃ ch ∈ family.basename.toList, ch.isUpper = true := by
  obtain ⟨i, d, hd, -, hdenotes⟩ := exists_denotes_of_mem h hf
  obtain ⟨hadmissible, -⟩ := load_eq_ok_iff.1 h
  rw [hdenotes.basename]
  exact Naming.exists_isUpper_of_lower_ne
    (hadmissible.lower_basename_ne (List.mem_of_getElem? hd))

/-! ## Two underscores -/

namespace Identifier

/-- The check finds `__` wherever it stands. -/
theorem hasDoubleUnderscore_iff {cs : List Char} :
    hasDoubleUnderscore cs = true ↔ ['_', '_'] <:+: cs := by
  induction cs with
  | nil => simp [hasDoubleUnderscore]
  | cons c cs ih =>
    cases cs with
    | nil => simp [hasDoubleUnderscore, List.infix_cons_iff]
    | cons d ds =>
      rw [hasDoubleUnderscore, List.infix_cons_iff, List.cons_prefix_cons, List.cons_prefix_cons,
        Bool.or_eq_true, ih]
      simp [eq_comm (a := '_')]

theorem hasDoubleUnderscore_cons_of_ne {c : Char} (hc : c ≠ '_') (cs : List Char) :
    hasDoubleUnderscore (c :: cs) = hasDoubleUnderscore cs := by
  cases cs with
  | nil => rfl
  | cons d ds => simp [hasDoubleUnderscore, hc]

theorem hasDoubleUnderscore_cons_of_head? {cs : List Char} (h : cs.head? ≠ some '_') (c : Char) :
    hasDoubleUnderscore (c :: cs) = hasDoubleUnderscore cs := by
  cases cs with
  | nil => rfl
  | cons d ds =>
    have hd : d ≠ '_' := by simpa using h
    simp [hasDoubleUnderscore, hd]

end Identifier

/-! ## The words of a guard -/

namespace Naming

open Identifier

/-- What a scan of words can leave behind: the flag tells whether a word is open
in front of it. -/
structure GuardTail (inWord : Bool) (cs : List Char) : Prop where
  chars : ∀ c ∈ cs, c.isUpper = true ∨ c.isDigit = true ∨ c = '_'
  single : hasDoubleUnderscore cs = false
  /-- a `_` comes only after a word -/
  head : inWord = false → cs.head? ≠ some '_'
  /-- every word is closed by a `_` -/
  last : cs.getLast? = some '_' ∨ inWord = false ∧ cs = []

namespace GuardTail

variable {cs : List Char}

theorem nil : GuardTail false [] :=
  ⟨by simp, rfl, by simp, Or.inr ⟨rfl, rfl⟩⟩

/-- One more letter or digit of a word. -/
theorem word {c : Char} (hc : c.isAlphanum = true) (h : GuardTail true cs) (inWord : Bool) :
    GuardTail inWord (c.toUpper :: cs) := by
  have hne : c.toUpper ≠ '_' := toUpper_ne_underscore hc
  have hlast : cs.getLast? = some '_' := by simpa using h.last
  refine ⟨List.forall_mem_cons.2 ⟨?_, h.chars⟩, ?_, ?_, Or.inl ?_⟩
  · exact (isUpper_or_isDigit_toUpper hc).elim Or.inl fun hdigit => Or.inr (Or.inl hdigit)
  · rw [hasDoubleUnderscore_cons_of_ne hne]
    exact h.single
  · intro _
    simpa using hne
  · rw [List.getLast?_cons, hlast]
    rfl

/-- The end of a word. -/
theorem close (h : GuardTail false cs) : GuardTail true ('_' :: cs) := by
  refine ⟨List.forall_mem_cons.2 ⟨by simp, h.chars⟩, ?_, by simp, Or.inl ?_⟩
  · rw [hasDoubleUnderscore_cons_of_head? (h.head rfl)]
    exact h.single
  · rcases h.last with hlast | ⟨-, rfl⟩
    · rw [List.getLast?_cons, hlast]
      rfl
    · rfl

end GuardTail

/-- The scan keeps the form from its end to its start. -/
theorem guardTail_guardWords (inWord : Bool) (cs : List Char) :
    GuardTail inWord (guardWords inWord cs) := by
  fun_induction guardWords inWord cs with
  | case1 => exact GuardTail.nil.close
  | case2 => exact GuardTail.nil
  | case3 inWord c cs hc ih => exact ih.word hc inWord
  | case4 c cs _ ih => exact ih.close
  | case5 inWord c cs _ hclosed ih =>
    rw [Bool.not_eq_true] at hclosed
    rwa [hclosed]

/-- A letter or a digit anywhere makes a word. -/
theorem guardWords_ne_nil {cs : List Char} {c : Char} (hc : c ∈ cs) (hword : c.isAlphanum = true)
    (inWord : Bool) : guardWords inWord cs ≠ [] := by
  fun_induction guardWords inWord cs with
  | case1 => exact absurd hc List.not_mem_nil
  | case2 => exact absurd hc List.not_mem_nil
  | case3 => simp
  | case4 => simp
  | case5 inWord d cs hd _ ih =>
    rcases List.mem_cons.1 hc with rfl | hc
    · exact absurd hword hd
    · exact ih hc

/-- The form of an inclusion guard. -/
structure IsGuard (guard : String) : Prop where
  chars : ∀ c ∈ guard.toList, c.isUpper = true ∨ c.isDigit = true ∨ c = '_'
  single : ¬ ['_', '_'] <:+: guard.toList
  head_ne : guard.toList.head? ≠ some '_'
  last : guard.toList.getLast? = some '_'

theorem toList_guardOf {text : String} {c : Char} (hc : c ∈ text.toList)
    (hword : c.isAlphanum = true) : (guardOf text).toList = guardWords false text.toList := by
  unfold guardOf
  split
  · next hnil => exact absurd hnil (guardWords_ne_nil hc hword false)
  · rw [String.toList_ofList]

/-- A text with a letter or a digit in it makes a guard. -/
theorem isGuard_guardOf {text : String} {c : Char} (hc : c ∈ text.toList)
    (hword : c.isAlphanum = true) : IsGuard (guardOf text) := by
  have htail := guardTail_guardWords false text.toList
  have hne := guardWords_ne_nil hc hword false
  refine ⟨?_, ?_, ?_, ?_⟩
  all_goals rw [toList_guardOf hc hword]
  · exact htail.chars
  · rw [← hasDoubleUnderscore_iff, htail.single]
    decide
  · exact htail.head rfl
  · simpa [hne] using htail.last

/-! ## Guards as identifiers -/

/-- No keyword ends with `_`. -/
theorem getLast?_keyword_ne : ∀ keyword ∈ keywords, keyword.toList.getLast? ≠ some '_' := by
  decide

/-- A guard that starts with a capital letter is an identifier. -/
theorem IsGuard.isIdentifier {guard : String} (h : IsGuard guard) {first : Char}
    (hfirst : guard.toList.head? = some first) (hupper : first.isUpper = true) :
    isIdentifier guard = true := by
  have hpart : ∀ c ∈ guard.toList, isPart c = true := by
    intro c hc
    rcases h.chars c hc with hupper | hdigit | rfl
    · exact isPart_of_isAlpha (isAlpha_iff.2 (Or.inl hupper))
    · exact isPart_of_isDigit hdigit
    · decide
  obtain ⟨rest, hchars⟩ := List.head?_eq_some_iff.1 hfirst
  have hformed : isWellFormed guard.toList = true := by
    rw [hchars] at hpart ⊢
    simp only [isWellFormed, isStart, isAlpha_iff.2 (Or.inl hupper), Bool.true_or, Bool.true_and,
      List.all_eq_true]
    exact fun c hc => hpart c (List.mem_cons_of_mem first hc)
  have hreserved : isReserved guard.toList = false := by
    have hdouble : hasDoubleUnderscore guard.toList = false := by
      rw [Bool.eq_false_iff, ne_eq, hasDoubleUnderscore_iff]
      exact h.single
    have hstart : startsLikeReserved guard.toList = false := by
      have hne : first ≠ '_' := by simpa [hfirst] using h.head_ne
      rw [hchars]
      cases rest with
      | nil => rfl
      | cons d ds => simp [startsLikeReserved, hne]
    simp [isReserved, hdouble, hstart]
  have hkeyword : guard ∉ keywords := fun hmem => getLast?_keyword_ne guard hmem h.last
  simp [TreeHeaders.isIdentifier, hformed, hreserved, hkeyword]

end Naming

/-- A namespace that the command line accepts starts with a letter. -/
theorem CommandLine.exists_head?_of_isNamespace {text : String} (h : isNamespace text = true) :
    ∃ first rest, text.toList = first :: rest ∧ first.isAlpha = true := by
  cases hpieces : Text.splitAtPair ':' text.toList with
  | nil => exact absurd hpieces (Text.splitAtPair_ne_nil ':' text.toList)
  | cons piece pieces =>
    have hpart : isNamespacePart piece = true := by
      refine List.all_eq_true.1 h piece ?_
      rw [hpieces]
      exact List.mem_cons_self
    simp only [isNamespacePart, Bool.and_eq_true] at hpart
    cases piece with
    | nil => exact absurd hpart.2 (by decide)
    | cons first rest =>
      refine ⟨first, ?_⟩
      have hjoin := Text.joinPieces_splitAtPair ':' text.toList
      rw [hpieces] at hjoin
      cases pieces with
      | nil => exact ⟨rest, hjoin.symm, by simpa using hpart.2⟩
      | cons next pieces => exact ⟨_, hjoin.symm, by simpa using hpart.2⟩

namespace Catalogue

/-- Under every configuration the guard of a family is made of capitals, digits and `_`, with no
`__` in it, no `_` in front and a `_` at the end. If the command line accepts the namespace, the
guard is an identifier. -/
theorem guards_wellFormed {ds : List FamilyDeclaration} {c : Catalogue} (h : load ds = .ok c)
    {family : Family} (hf : family ∈ c.families) (config : Config) :
    Naming.IsGuard (Naming.guard config family.basename) ∧
      (CommandLine.isNamespace config.namespaceName = true →
        isIdentifier (Naming.guard config family.basename) = true) := by
  obtain ⟨capital, hcapital, hupper⟩ := exists_isUpper_basename h hf
  have hword : capital.isAlphanum = true := by
    simp [Char.isAlphanum, Identifier.isAlpha_iff.2 (Or.inl hupper)]
  have hmem : capital ∈
      (config.namespaceName ++ "_" ++ family.basename ++ "_" ++ config.extension).toList := by
    simp [hcapital]
  have hguard : Naming.IsGuard (Naming.guard config family.basename) :=
    Naming.isGuard_guardOf hmem hword
  refine ⟨hguard, ?_⟩
  intro hnamespace
  obtain ⟨first, rest, hchars, halpha⟩ := CommandLine.exists_head?_of_isNamespace hnamespace
  have hstart : (Naming.guard config family.basename).toList.head? = some first.toUpper := by
    have halphanum : first.isAlphanum = true := by
      simp [Char.isAlphanum, halpha]
    rw [Naming.guard, Naming.toList_guardOf hmem hword]
    simp [hchars, Naming.guardWords_of_isAlphanum halphanum]
  exact hguard.isIdentifier hstart (Identifier.isUpper_toUpper halpha)

/-- A family whose name has a `_` at every place where there may be one. -/
def underscores : List FamilyDeclaration :=
  [{ basename := "_x9_Y_", variants := [{ name := "Leaf" }] }]

/-- A namespace that no command line accepts, and an extension that none accepts either. -/
def unchecked : Config :=
  { namespaceName := "__é::9a ", extension := "++_h" }

/-- Without a check on the namespace the guard may start with a digit, but it is a guard; with
one it is an identifier. -/
theorem underscores_guards_wellFormed :
    ∃ c, load underscores = .ok c ∧ ∃ family ∈ c.families,
      Naming.guard unchecked family.basename = "9A_X9_Y_H_" ∧
      Naming.IsGuard (Naming.guard unchecked family.basename) ∧
      CommandLine.isNamespace "lang::ast" = true ∧
      isIdentifier (Naming.guard { namespaceName := "lang::ast" } family.basename) = true := by
  obtain ⟨c, hc, family, hfamily, hname⟩ := exists_family_of_isOk
    (show (load underscores).isOk = true by decide +kernel)
    (show "_x9_Y_" ∈ underscores.map (·.basename) by decide)
  have hnamespace : CommandLine.isNamespace "lang::ast" = true := by decide +kernel
  obtain ⟨hguard, -⟩ := guards_wellFormed hc hfamily unchecked
  obtain ⟨-, hidentifier⟩ := guards_wellFormed hc hfamily { namespaceName := "lang::ast" }
  refine ⟨c, hc, family, hfamily, ?_, hguard, hnamespace, hidentifier hnamespace⟩
  rw [hname]
  decide +kernel

end Catalogue

end TreeHeaders
