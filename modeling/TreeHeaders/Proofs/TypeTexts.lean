import TreeHeaders.Proofs.Spelling

set_option autoImplicit false

/-!
# What a type text asks for

The reader of type texts is a sequence of tests that overlap: a keyword can be an identifier, a
bracket can be missing, and what stands in brackets is trimmed once more. Here its answer on an
arbitrary text is said case by case, with no order among the cases: a primitive, the token type,
a node, a list, and nothing in all other cases (`TypeText.parse_classified`).

Brackets have to be one pair at the ends of the trimmed text, with a name between them. Wherever
else a bracket stands, nothing is asked for (`TypeText.Misbracketed`).
-/

namespace TreeHeaders

/-- Trimming leaves no identifier of a text with a character that is neither a blank nor
a part of identifiers. -/
theorem Identifier.not_isIdentifier_trim {text : String} {c : Char} (hmem : c ∈ text.toList)
    (hblank : Text.isBlank c = false) (hpart : isPart c = false) :
    isIdentifier (Text.trim text) = false := by
  by_contra hname
  obtain ⟨left, right, hl, hr, htext⟩ := Text.surrounds_trim text
  rw [htext, String.toList_append, String.toList_append, List.mem_append, List.mem_append] at hmem
  rcases hmem with (hleft | hcore) | hright
  · simp [hl c hleft] at hblank
  · have hcorepart := isPart_of_isIdentifier (by simpa using hname) c hcore
    simp [hcorepart] at hpart
  · simp [hr c hright] at hblank

/-! ## Texts that cannot be read -/

namespace TypeText

variable {text name : String}

theorem forall_not_reads_iff : (∀ t, ¬ Reads text t) ↔
    (∀ p : Primitive, text ≠ p.keyword) ∧ text ≠ tokenName ∧ ¬ IsNodeName text ∧
      ∀ inside, text = "[" ++ inside ++ "]" → isIdentifier (Text.trim inside) = false := by
  constructor
  · intro hnone
    refine ⟨?_, ?_, ?_, ?_⟩
    · intro p hkeyword
      exact hnone _ (reads_primitive_iff.2 hkeyword)
    · intro htoken
      exact hnone _ (reads_token_iff.2 htoken)
    · intro hname
      exact hnone _ (.node hname)
    · intro inside htext
      by_contra hname
      exact hnone _ (reads_list_iff.2 ⟨inside, htext, rfl, by simpa using hname⟩)
  · rintro ⟨hkeyword, htoken, hnode, hlist⟩ t hreads
    cases hreads with
    | primitive p => exact hkeyword p rfl
    | token => exact htoken rfl
    | node h => exact hnode h
    | @list inside _ h htrim =>
      rw [← htrim, hlist inside rfl] at h
      exact absurd h (by decide)

/-- There are brackets in the text, but they are not one pair at its ends with something in it:
a bracket stands alone or inside, or there are only blanks inside. -/
structure Misbracketed (text : String) : Prop where
  bracket : '[' ∈ text.toList ∨ ']' ∈ text.toList
  inside : ∀ inside, text = "[" ++ inside ++ "]" →
    Text.Blank inside ∨ '[' ∈ inside.toList ∨ ']' ∈ inside.toList

theorem misbracketed_of_nested {inside : String} (h : '[' ∈ inside.toList ∨ ']' ∈ inside.toList) :
    Misbracketed ("[" ++ inside ++ "]") := by
  refine ⟨Or.inl (by simp), ?_⟩
  intro other heq
  obtain rfl : inside = other := by simpa using heq
  exact Or.inr h

theorem isPart_keyword (p : Primitive) : ∀ c ∈ p.keyword.toList, Identifier.isPart c = true := by
  cases p <;> simp [Primitive.keyword, Identifier.isPart]

theorem isPart_tokenName : ∀ c ∈ tokenName.toList, Identifier.isPart c = true := by
  simp [tokenName, Identifier.isPart]

theorem Misbracketed.exists_notPart (h : Misbracketed text) :
    ∃ c ∈ text.toList, Identifier.isPart c = false := by
  rcases h.bracket with hopen | hclose
  · exact ⟨'[', hopen, rfl⟩
  · exact ⟨']', hclose, rfl⟩

/-- What is in a pair of brackets at the ends of such a text is no name. -/
theorem Misbracketed.not_isIdentifier_trim {inside : String}
    (h : Misbracketed ("[" ++ inside ++ "]")) : isIdentifier (Text.trim inside) = false := by
  rcases h.inside inside rfl with hblank | hopen | hclose
  · rw [Text.trim_of_blank hblank]
    rfl
  · exact Identifier.not_isIdentifier_trim hopen rfl rfl
  · exact Identifier.not_isIdentifier_trim hclose rfl rfl

/-- No text with such brackets can be read. -/
theorem Reads.not_misbracketed {t : TypeText} (h : Reads text t) : ¬ Misbracketed text := by
  intro hbrackets
  -- a text that is not in brackets is made of characters of identifiers, and no bracket is one
  have hparts : ¬ ∀ c ∈ text.toList, Identifier.isPart c = true := by
    obtain ⟨c, hc, hnot⟩ := hbrackets.exists_notPart
    intro hall
    simp [hall c hc] at hnot
  cases h with
  | primitive p => exact hparts (isPart_keyword p)
  | token => exact hparts isPart_tokenName
  | node h => exact hparts (Identifier.isPart_of_isIdentifier h.identifier)
  | list h htrim =>
    have hnot := hbrackets.not_isIdentifier_trim
    rw [htrim, h] at hnot
    exact absurd hnot (by decide)

/-! ## Every text -/

/-- A text asks for a primitive, the token type, a node or a list exactly when what trimming
leaves of it is spelled so, and for nothing otherwise, as where brackets are missing, empty or
nested. Blanks around it do not matter. -/
theorem parse_classified (text : String) :
    (∀ core, Text.trim text = core ↔ Text.Trimmed core ∧ Text.Surrounds text core) ∧
    (∀ left right, Text.Blank left → Text.Blank right →
      parse (left ++ text ++ right) = parse text) ∧
    (∀ p : Primitive, parse text = .primitive p ↔ Text.trim text = p.keyword) ∧
    (parse text = .token ↔ Text.trim text = tokenName) ∧
    (∀ name, parse text = .node name ↔ Text.trim text = name ∧ IsNodeName name) ∧
    (∀ name, parse text = .list name ↔ ∃ inside, Text.trim text = "[" ++ inside ++ "]" ∧
      Text.trim inside = name ∧ isIdentifier name = true) ∧
    (parse text = .unknown ↔ (∀ p : Primitive, Text.trim text ≠ p.keyword) ∧
      Text.trim text ≠ tokenName ∧ ¬ IsNodeName (Text.trim text) ∧
      ∀ inside, Text.trim text = "[" ++ inside ++ "]" → isIdentifier (Text.trim inside) = false) ∧
    (Misbracketed (Text.trim text) → parse text = .unknown) := by
  refine ⟨fun core => Text.trim_eq_iff_trimmed, ?_, ?_, ?_, ?_, ?_, ?_, ?_⟩
  · intro left right hl hr
    rw [parse, Text.trim_surround hl hr, parse]
  · intro p
    rw [parse_eq_iff_reads (by simp), reads_primitive_iff]
  · rw [parse_eq_iff_reads (by simp), reads_token_iff]
  · intro name
    rw [parse_eq_iff_reads (by simp), reads_node_iff]
  · intro name
    rw [parse_eq_iff_reads (by simp), reads_list_iff]
  · rw [parse_eq_unknown_iff_forall_not_reads, forall_not_reads_iff]
  · intro hbrackets
    exact parse_eq_unknown_iff_forall_not_reads.2 fun t hreads =>
      hreads.not_misbracketed hbrackets

/-- Blanks around brackets and inside them are no part of the name, and there is
no list of lists. -/
theorem spacedList_read :
    parse ("\u3000" ++ "[ Expr\t]" ++ "\r\n") = .list "Expr" ∧ parse "[[Expr]]" = .unknown := by
  obtain ⟨-, hblanks, -, -, -, hlist, -, -⟩ := parse_classified "[ Expr\t]"
  obtain ⟨-, -, -, -, -, -, -, hbrackets⟩ := parse_classified "[[Expr]]"
  constructor
  · have hread : parse "[ Expr\t]" = .list "Expr" :=
      (hlist "Expr").2 ⟨" Expr\t", by decide, by decide, by decide⟩
    rw [hblanks "\u3000" "\r\n" (by simp [Text.Blank, Text.isBlank, Text.blanks])
      (by simp [Text.Blank, Text.isBlank, Text.blanks]), hread]
  · have hcore : Text.trim "[[Expr]]" = "[" ++ "[Expr]" ++ "]" := by decide
    refine hbrackets ?_
    rw [hcore]
    exact misbracketed_of_nested (Or.inl (by simp))

example : parse "[" = .unknown ∧ parse "]" = .unknown ∧ parse "[ ]" = .unknown := by
  decide

end TypeText

end TreeHeaders
