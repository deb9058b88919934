import TreeHeaders.Proofs.Faithfulness
import TreeHeaders.Proofs.LetterCase

set_option autoImplicit false

/-!
# Inclusion guards

A guard is made of the words of a text: its runs of letters and digits, in capitals, with one
`_` after each. The words of the namespace come first and those of the extension last, and they
are the same for all headers of a run, so two guards are the same exactly when the basenames
have the same words (`guard_eq_guard_iff`).

An identifier has no `__` inside, so only a `_` at one of its ends leaves no trace in its words.
That is the one thing that two families of a catalogue can differ in and still share a guard:
names that differ only in case are refused, since they would share the visitor namespace.
-/

namespace TreeHeaders

namespace Naming

/-! ## The words of a text -/

/-- A character that ends words keeps what comes before it apart from what comes after it. -/
theorem guardWords_append {sep : Char} (h : sep.isAlphanum = false) (inWord : Bool)
    (xs ys : List Char) :
    guardWords inWord (xs ++ sep :: ys) = guardWords inWord xs ++ guardWords false ys := by
  induction xs generalizing inWord with
  | nil => cases inWord <;> simp [guardWords, h]
  | cons c cs ih =>
    by_cases hc : c.isAlphanum = true
    · cases inWord <;> simp [guardWords, hc, ih]
    · cases inWord <;> simp [guardWords, hc, ih]

/-- The words of a text do not start with `_`. -/
theorem guardWords_ne_underscore (cs : List Char) : guardWords false cs ≠ ['_'] := by
  induction cs with
  | nil => simp [guardWords]
  | cons c cs ih =>
    by_cases hc : c.isAlphanum = true
    · simp [guardWords, hc, Identifier.toUpper_ne_underscore hc]
    · simpa [guardWords, hc] using ih

theorem guardOf_eq_guardOf_iff {left right : String} :
    guardOf left = guardOf right ↔
      guardWords false left.toList = guardWords false right.toList := by
  have hchars : ∀ text : String, (guardOf text).toList =
      if guardWords false text.toList = [] then ['_'] else guardWords false text.toList := by
    intro text
    unfold guardOf
    split
    · next h => simp [h]
    · next h =>
      rw [if_neg h]
      simp
  rw [← String.toList_inj, hchars, hchars]
  have hl := guardWords_ne_underscore left.toList
  have hr := guardWords_ne_underscore right.toList
  constructor
  · intro h
    split at h
    · next hl' =>
      split at h
      · next hr' => rw [hl', hr']
      · exact absurd h.symm hr
    · split at h
      · exact absurd h hl
      · exact h
  · intro h
    rw [h]

/-- Two headers have one guard exactly when their basenames have the same words. -/
theorem guard_eq_guard_iff {config : Config} {left right : String} :
    guard config left = guard config right ↔
      guardWords false left.toList = guardWords false right.toList := by
  have hwords : ∀ family : String,
      guardWords false (config.namespaceName ++ "_" ++ family ++ "_" ++ config.extension).toList =
        guardWords false config.namespaceName.toList ++ guardWords false family.toList ++
          guardWords false config.extension.toList := by
    intro family
    have hsep : ('_' : Char).isAlphanum = false := by decide
    have htext : (config.namespaceName ++ "_" ++ family ++ "_" ++ config.extension).toList =
        config.namespaceName.toList ++ '_' ::
          (family.toList ++ '_' :: config.extension.toList) := by
      simp
    rw [htext, guardWords_append hsep, guardWords_append hsep, List.append_assoc]
  rw [guard, guard, guardOf_eq_guardOf_iff, hwords, hwords, List.append_cancel_right_eq,
    List.append_cancel_left_eq]

/-! ## The words of an identifier -/

/-- The characters without `_` at their end. -/
def trimEnd (cs : List Char) : List Char :=
  (cs.reverse.dropWhile (· == '_')).reverse

/-- The characters without `_` at either end. -/
def coreChars (cs : List Char) : List Char :=
  trimEnd (cs.dropWhile (· == '_'))

/-- The name without `_` at either end. -/
def core (name : String) : String :=
  String.ofList (coreChars name.toList)

theorem trimEnd_cons (c : Char) (cs : List Char) :
    trimEnd (c :: cs) =
      if trimEnd cs = [] then (if c = '_' then [] else [c]) else c :: trimEnd cs := by
  simp only [trimEnd, List.reverse_cons, List.dropWhile_append, List.isEmpty_iff,
    List.reverse_eq_nil_iff]
  split
  · by_cases hc : c = '_' <;> simp [hc]
  · simp

theorem trimEnd_cons_of_ne {c : Char} (hc : c ≠ '_') (cs : List Char) :
    trimEnd (c :: cs) = c :: trimEnd cs := by
  rw [trimEnd_cons]
  split
  · next h => rw [h]
  · rfl

end Naming

namespace Identifier

theorem isAlphanum_of_isPart {c : Char} (h : isPart c = true) (hc : c ≠ '_') :
    c.isAlphanum = true := by
  simpa [isPart, hc] using h

theorem hasDoubleUnderscore_tail {c : Char} {cs : List Char}
    (h : hasDoubleUnderscore (c :: cs) = false) : hasDoubleUnderscore cs = false := by
  cases cs with
  | nil => rfl
  | cons d ds =>
    simp only [hasDoubleUnderscore, Bool.or_eq_false_iff] at h
    exact h.2

theorem not_hasDoubleUnderscore {name : String} (h : isIdentifier name = true) :
    hasDoubleUnderscore name.toList = false := by
  simp only [isIdentifier, isReserved, Bool.and_eq_true, Bool.not_eq_true', Bool.or_eq_false_iff]
    at h
  exact h.1.2.1

/-- What follows a `_` in an identifier is a letter or a digit. -/
theorem isAlphanum_after_underscore {d : Char} {ds : List Char}
    (hpart : isPart d = true) (h : hasDoubleUnderscore ('_' :: d :: ds) = false) :
    d.isAlphanum = true := by
  refine isAlphanum_of_isPart hpart ?_
  intro hd
  simp [hasDoubleUnderscore, hd] at h

end Identifier

namespace Naming

open Identifier

theorem guardWords_of_isAlphanum {c : Char} (h : c.isAlphanum = true) (inWord : Bool)
    (cs : List Char) : guardWords inWord (c :: cs) = c.toUpper :: guardWords true cs := by
  cases inWord <;> simp [guardWords, h]

theorem ne_underscore_of_isAlphanum {c : Char} (h : c.isAlphanum = true) : c ≠ '_' := by
  intro hc
  rw [hc] at h
  exact absurd h (by decide)

/-- Inside an identifier every `_` but the last one is kept, since none follows another. -/
theorem guardWords_true {cs : List Char} (hpart : ∀ c ∈ cs, isPart c = true)
    (hdouble : hasDoubleUnderscore cs = false) :
    guardWords true cs = (trimEnd cs).map Char.toUpper ++ ['_'] := by
  induction cs with
  | nil => rfl
  | cons c cs ih =>
    have ih := ih (fun d hd => hpart d (List.mem_cons_of_mem c hd))
      (hasDoubleUnderscore_tail hdouble)
    by_cases hc : c = '_'
    · subst hc
      cases cs with
      | nil => decide
      | cons d ds =>
        have hd : d.isAlphanum = true :=
          isAlphanum_after_underscore (hpart d (by simp)) hdouble
        have hopen : guardWords true ('_' :: d :: ds) = '_' :: guardWords true (d :: ds) := by
          rw [guardWords_of_isAlphanum hd]
          simp [guardWords, hd]
        have htrim : trimEnd (d :: ds) ≠ [] := by
          rw [trimEnd_cons_of_ne (ne_underscore_of_isAlphanum hd)]
          simp
        have hupper : ('_' : Char).toUpper = '_' := by decide
        rw [hopen, ih, trimEnd_cons '_', if_neg htrim, List.map_cons, hupper, List.cons_append]
    · have hcs : c.isAlphanum = true := isAlphanum_of_isPart (hpart c (by simp)) hc
      rw [guardWords_of_isAlphanum hcs, ih, trimEnd_cons_of_ne hc, List.map_cons,
        List.cons_append]

/-- The words of an identifier are what lies between the `_` at its ends. -/
theorem guardWords_false {cs : List Char} (hpart : ∀ c ∈ cs, isPart c = true)
    (hdouble : hasDoubleUnderscore cs = false) :
    guardWords false cs =
      if coreChars cs = [] then [] else (coreChars cs).map Char.toUpper ++ ['_'] := by
  -- an identifier that starts with a word is read as if the word had been open before
  have hword : ∀ (c : Char) (ds : List Char), c.isAlphanum = true →
      (∀ d ∈ c :: ds, isPart d = true) → hasDoubleUnderscore (c :: ds) = false →
      guardWords false (c :: ds) =
        if coreChars (c :: ds) = [] then []
        else (coreChars (c :: ds)).map Char.toUpper ++ ['_'] := by
    intro c ds hc hparts hdoubles
    have hne := ne_underscore_of_isAlphanum hc
    have hcore : coreChars (c :: ds) = trimEnd (c :: ds) := by
      simp [coreChars, hne]
    have hnil : trimEnd (c :: ds) ≠ [] := by
      rw [trimEnd_cons_of_ne hne]
      simp
    rw [hcore, if_neg hnil, ← guardWords_true hparts hdoubles, guardWords_of_isAlphanum hc,
      guardWords_of_isAlphanum hc]
  cases cs with
  | nil => rfl
  | cons c cs =>
    by_cases hc : c = '_'
    · subst hc
      cases cs with
      | nil => decide
      | cons d ds =>
        have hd : d.isAlphanum = true :=
          isAlphanum_after_underscore (hpart d (by simp)) hdouble
        have hskip : guardWords false ('_' :: d :: ds) = guardWords false (d :: ds) := by
          simp [guardWords, hd]
        have hcore : coreChars ('_' :: d :: ds) = coreChars (d :: ds) := by
          simp [coreChars]
        rw [hskip, hcore]
        exact hword d ds hd (fun e he => hpart e (List.mem_cons_of_mem _ he))
          (hasDoubleUnderscore_tail hdouble)
    · exact hword c cs (isAlphanum_of_isPart (hpart c (by simp)) hc) hpart hdouble

theorem guardWords_eq_iff {left right : String} (hl : isIdentifier left = true)
    (hr : isIdentifier right = true) :
    guardWords false left.toList = guardWords false right.toList ↔
      lower (core left) = lower (core right) := by
  have hcase : lower (core left) = lower (core right) ↔
      (coreChars left.toList).map Char.toUpper = (coreChars right.toList).map Char.toUpper := by
    rw [map_toUpper_eq_iff, ← String.toList_inj]
    simp [lower, core]
  rw [hcase, guardWords_false (isPart_of_isIdentifier hl) (not_hasDoubleUnderscore hl),
    guardWords_false (isPart_of_isIdentifier hr) (not_hasDoubleUnderscore hr)]
  by_cases hleft : coreChars left.toList = []
  · by_cases hright : coreChars right.toList = []
    · simp [hleft, hright]
    · simp [hleft, hright]
  · by_cases hright : coreChars right.toList = []
    · simp [hleft, hright]
    · simp [hleft, hright]

/-- A name that neither starts nor ends with `_` is its own core. -/
theorem core_eq_self {name : String} (hstart : name.toList.head? ≠ some '_')
    (hend : name.toList.getLast? ≠ some '_') : core name = name := by
  have hself : ∀ cs : List Char, cs.head? ≠ some '_' → cs.dropWhile (· == '_') = cs :=
    fun cs h => List.dropWhile_beq_eq_self_of_head?_ne h
  have hreverse : name.toList.reverse.head? ≠ some '_' := by
    rw [List.head?_reverse]
    exact hend
  rw [core, coreChars, hself _ hstart, trimEnd, hself _ hreverse, List.reverse_reverse,
    String.ofList_toList]

end Naming

/-! ## Guards of a catalogue -/

namespace Catalogue

/-- The headers of a catalogue have different guards exactly when the basenames stay
different without regard to case and to `_` at their ends. They do if no basename
starts or ends with `_`. -/
theorem guards_nodup_iff_cores_nodup {ds : List FamilyDeclaration} {c : Catalogue}
    (h : load ds = .ok c) (config : Config) :
    ((c.families.map fun family => Naming.guard config family.basename).Nodup ↔
        (c.families.map fun family => Naming.lower (Naming.core family.basename)).Nodup) ∧
      ((∀ family ∈ c.families, family.basename.toList.head? ≠ some '_' ∧
          family.basename.toList.getLast? ≠ some '_') →
        (c.families.map fun family => Naming.guard config family.basename).Nodup) := by
  have hexact : (c.families.map fun family => Naming.guard config family.basename).Nodup ↔
      (c.families.map fun family => Naming.lower (Naming.core family.basename)).Nodup := by
    unfold List.Nodup
    rw [List.pairwise_map, List.pairwise_map]
    refine List.Pairwise.iff_of_mem ?_
    intro left right hl hr
    rw [Ne, Ne, Naming.guard_eq_guard_iff, Naming.guardWords_eq_iff
      (wellNamed_of_mem h hl).basename (wellNamed_of_mem h hr).basename]
  refine ⟨hexact, ?_⟩
  intro hends
  rw [hexact]
  have hcores : (c.families.map fun family => Naming.lower (Naming.core family.basename)) =
      c.families.map fun family => Naming.lower family.basename := by
    refine List.map_congr_left ?_
    intro family hfamily
    obtain ⟨hstart, hend⟩ := hends family hfamily
    rw [Naming.core_eq_self hstart hend]
  rw [hcores]
  exact lower_basenames_nodup h

/-- Two families whose names differ in a `_` at the end only. The second one holds a node of the
first, so its header includes that of the first. -/
def trailingUnderscore : List FamilyDeclaration :=
  [{ basename := "Expr", variants := [{ name := "Literal" }] },
   { basename := "Expr_"
     variants := [{ name := "Wrapper", fields := [{ type := "Expr", name := "inner" }] }] }]

/-- A `_` at the end of a basename makes a family of its own, but no guard of its own. -/
theorem guards_clash_of_trailing_underscore :
    ∃ c, load trailingUnderscore = .ok c ∧
      c.families.map (·.basename) = ["Expr", "Expr_"] ∧
      c.families.map (fun family => Naming.guard {} family.basename) =
        ["LOX_EXPR_H_", "LOX_EXPR_H_"] := by
  obtain ⟨c, hc, hbasenames⟩ := exists_load_of_isOk
    (show (load trailingUnderscore).isOk = true by decide +kernel)
  refine ⟨c, hc, hbasenames, ?_⟩
  have hguards := congrArg (List.map (Naming.guard {})) hbasenames
  rw [List.map_map, List.map_map] at hguards
  exact hguards.trans (by decide +kernel)

end Catalogue

/-- The two headers of Lox have different guards. -/
theorem Lox.guards_nodup :
    ∃ c, Catalogue.load declarations = .ok c ∧
      (c.families.map fun family => Naming.lower (Naming.core family.basename)).Nodup ∧
      (c.families.map fun family => Naming.guard {} family.basename).Nodup := by
  obtain ⟨c, hc, hbasenames⟩ := Catalogue.exists_load_of_isOk catalogue_isOk
  have hends : ∀ family ∈ c.families, family.basename.toList.head? ≠ some '_' ∧
      family.basename.toList.getLast? ≠ some '_' := by
    intro family hfamily
    have hmem : family.basename ∈ ["Expr", "Stmt"] := by
      have hmap := List.mem_map_of_mem (f := fun family : Family => family.basename) hfamily
      rw [hbasenames] at hmap
      exact hmap
    simp only [List.mem_cons, List.not_mem_nil, or_false] at hmem
    rcases hmem with hexpr | hstmt
    · rw [hexpr]
      decide
    · rw [hstmt]
      decide
  obtain ⟨hiff, hnodup⟩ := Catalogue.guards_nodup_iff_cores_nodup hc {}
  exact ⟨c, hc, hiff.1 (hnodup hends), hnodup hends⟩

end TreeHeaders
