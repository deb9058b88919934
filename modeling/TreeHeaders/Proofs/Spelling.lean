import TreeHeaders.Catalogue.Load
import Mathlib.Data.List.DropRight

set_option autoImplicit false

/-!
# The spelling of field types

A field type is written as a text. This module says, without reading the text step by step,
which texts stand for which type, and proves that resolving a text finds a type exactly when the
text stands for it. Trimming comes first (`Text.trim_eq_iff_trimmed`), then reading as a
relation between a trimmed text and what it asks for (`TypeText.parse_eq_iff_reads`).

The names of families are what makes this unambiguous: a family that is called like a primitive
or like the token type could never be referred to, so the statements here ask for plain names,
and `Proofs.Acceptance` shows that a loaded catalogue has no others.
-/

namespace TreeHeaders

/-! ## Trimming -/

namespace Text

/-- The text consists of blanks. -/
def Blank (text : String) : Prop :=
  ∀ c ∈ text.toList, isBlank c = true

theorem trimChars_append_right {ws : List Char} (h : ∀ c ∈ ws, isBlank c = true)
    (cs : List Char) : trimChars (cs ++ ws) = trimChars cs := by
  have hws : ws.dropWhile isBlank = [] := by
    have hnil : (ws ++ []).dropWhile isBlank = [].dropWhile isBlank :=
      List.dropWhile_append_of_pos h
    simpa using hnil
  have hrev : ∀ c ∈ ws.reverse, isBlank c = true := by
    simpa using h
  simp only [trimChars, List.dropWhile_append, List.isEmpty_iff]
  split
  · next hcs => rw [hws, hcs]
  · rw [List.reverse_append, List.dropWhile_append_of_pos hrev]

/-- What trimming takes away are blanks. -/
theorem exists_eq_append_trimChars (cs : List Char) :
    ∃ left right, (∀ c ∈ left, isBlank c = true) ∧ (∀ c ∈ right, isBlank c = true) ∧
      cs = left ++ trimChars cs ++ right := by
  refine ⟨cs.takeWhile isBlank, ((cs.dropWhile isBlank).reverse.takeWhile isBlank).reverse,
    ?_, ?_, ?_⟩
  · exact List.all_eq_true.1 List.all_takeWhile
  · intro c hc
    exact List.all_eq_true.1 List.all_takeWhile c (List.mem_reverse.1 hc)
  · rw [trimChars, List.append_assoc, ← List.reverse_append, List.takeWhile_append_dropWhile,
      List.reverse_reverse, List.takeWhile_append_dropWhile]

/-- The text neither starts nor ends with a blank. -/
structure Trimmed (text : String) : Prop where
  first : ∀ c ∈ text.toList.head?, isBlank c = false
  last : ∀ c ∈ text.toList.getLast?, isBlank c = false

/-- The text consists of the other one and blanks around it. -/
def Surrounds (text core : String) : Prop :=
  ∃ left right : String, Blank left ∧ Blank right ∧ text = left ++ core ++ right

theorem trimChars_eq_rdropWhile (cs : List Char) :
    trimChars cs = (cs.dropWhile isBlank).rdropWhile isBlank := rfl

theorem trimmed_trim (text : String) : Trimmed (trim text) := by
  constructor
  · intro c hc
    -- the second pass takes nothing from the front of what the first one leaves
    obtain ⟨rest, hrest⟩ := List.rdropWhile_prefix isBlank (text.toList.dropWhile isBlank)
    rw [toList_trim, trimChars_eq_rdropWhile] at hc
    have hhead : (text.toList.dropWhile isBlank).head? = some c := by
      rw [← hrest, List.head?_append, hc]
      rfl
    have hnot := List.head?_dropWhile_not isBlank text.toList
    rwa [hhead] at hnot
  · intro c hc
    rw [toList_trim, trimChars_eq_rdropWhile] at hc
    obtain ⟨front, hfront⟩ := List.getLast?_eq_some_iff.1 hc
    have hne : (text.toList.dropWhile isBlank).rdropWhile isBlank ≠ [] := by
      rw [hfront]
      simp
    have hlast := List.rdropWhile_last_not isBlank _ hne
    simpa [hfront] using hlast

theorem surrounds_trim (text : String) : Surrounds text (trim text) := by
  obtain ⟨left, right, hl, hr, htext⟩ := exists_eq_append_trimChars text.toList
  refine ⟨String.ofList left, String.ofList right, ?_, ?_, ?_⟩
  · simpa [Blank] using hl
  · simpa [Blank] using hr
  · apply String.toList_injective
    simpa using htext

/-- Blanks around a text do not change what trimming leaves. -/
theorem trim_surround {left right : String} (hl : Blank left) (hr : Blank right) (text : String) :
    trim (left ++ text ++ right) = trim text := by
  have hleft : left.toList.all isBlank = true := List.all_eq_true.2 hl
  apply String.toList_injective
  rw [toList_trim, toList_trim, String.toList_append, String.toList_append,
    trimChars_append_right hr, trimChars_append_left hleft]

theorem Trimmed.trim_eq {text : String} (h : Trimmed text) : trim text = text := by
  apply String.toList_injective
  rw [toList_trim, trimChars_eq_rdropWhile]
  have hfirst : text.toList.dropWhile isBlank = text.toList := by
    cases hcs : text.toList with
    | nil => rfl
    | cons c cs => exact List.dropWhile_cons_of_neg (by simp [h.first c (by simp [hcs])])
  rw [hfirst, List.rdropWhile_eq_self_iff]
  intro hne hblank
  simp [h.last _ (List.getLast?_eq_some_getLast hne)] at hblank

/-- Trimming leaves the one part of a text that has no blank at its ends and nothing but blanks
around it. -/
theorem trim_eq_iff_trimmed {text core : String} :
    trim text = core ↔ Trimmed core ∧ Surrounds text core := by
  constructor
  · rintro rfl
    exact ⟨trimmed_trim text, surrounds_trim text⟩
  · rintro ⟨htrimmed, left, right, hl, hr, rfl⟩
    rw [trim_surround hl hr, htrimmed.trim_eq]

theorem trim_of_blank {text : String} (h : Blank text) : trim text = "" := by
  refine trim_eq_iff_trimmed.2 ⟨⟨by simp, by simp⟩, text, "", h, by simp [Blank], by simp⟩

end Text

/-- No blank can be a part of an identifier. -/
theorem Identifier.not_isBlank_of_isPart {c : Char} (h : isPart c = true) :
    Text.isBlank c = false := by
  have hall : (Text.blanks.all fun b => !isPart b) = true := by decide
  cases hb : Text.isBlank c with
  | false => rfl
  | true =>
    have hmem : c ∈ Text.blanks := by
      simpa [Text.isBlank] using hb
    have hpart := List.all_eq_true.1 hall c hmem
    simp [h] at hpart

theorem Identifier.not_isBlank_of_isIdentifier {name : String} (h : isIdentifier name = true) :
    ∀ c ∈ name.toList, Text.isBlank c = false := by
  intro c hc
  exact not_isBlank_of_isPart (isPart_of_isIdentifier h c hc)

theorem Identifier.trimmed {name : String} (h : isIdentifier name = true) : Text.Trimmed name where
  first c hc := not_isBlank_of_isIdentifier h c (List.mem_of_mem_head? hc)
  last c hc := not_isBlank_of_isIdentifier h c (List.mem_of_mem_getLast? hc)

/-- Trimming leaves an identifier exactly where blanks surround it. -/
theorem Text.trim_eq_iff {text own : String} (h : isIdentifier own = true) :
    Text.trim text = own ↔
      ∃ left right : String, Text.Blank left ∧ Text.Blank right ∧ text = left ++ own ++ right := by
  rw [Text.trim_eq_iff_trimmed]
  exact and_iff_right (Identifier.trimmed h)

/-! ## Reading a type text -/

namespace TypeText

/-- A name that stands for a node when it is written as a type. -/
structure IsNodeName (name : String) : Prop where
  identifier : isIdentifier name = true
  ne_keyword : ∀ p : Primitive, name ≠ p.keyword
  ne_token : name ≠ tokenName

/-- The texts without blanks at their ends that can be read, and what they ask for. -/
inductive Reads : String → TypeText → Prop where
  | primitive (p : Primitive) : Reads p.keyword (.primitive p)
  | token : Reads tokenName .token
  | node {name : String} (h : IsNodeName name) : Reads name (.node name)
  | list {inside name : String} (h : isIdentifier name = true) (ht : Text.trim inside = name) :
    Reads ("[" ++ inside ++ "]") (.list name)

variable {text name : String}

theorem reads_primitive_iff {p : Primitive} : Reads text (.primitive p) ↔ text = p.keyword := by
  constructor
  · intro h
    cases h with
    | primitive => rfl
  · intro htext
    rw [htext]
    exact .primitive p

theorem reads_token_iff : Reads text .token ↔ text = tokenName := by
  constructor
  · intro h
    cases h with
    | token => rfl
  · intro htext
    rw [htext]
    exact .token

theorem reads_node_iff : Reads text (.node name) ↔ text = name ∧ IsNodeName name := by
  constructor
  · intro h
    cases h with
    | node hname => exact ⟨rfl, hname⟩
  · rintro ⟨rfl, hname⟩
    exact .node hname

theorem reads_list_iff : Reads text (.list name) ↔
    ∃ inside, text = "[" ++ inside ++ "]" ∧ Text.trim inside = name ∧ isIdentifier name = true := by
  constructor
  · intro h
    cases h with
    | list hname htrim => exact ⟨_, rfl, htrim, hname⟩
  · rintro ⟨inside, rfl, htrim, hname⟩
    exact .list hname htrim

theorem Reads.ne_unknown {t : TypeText} (h : Reads text t) : t ≠ .unknown := by
  cases h <;> simp

/-- Brackets do not stand around an identifier. -/
theorem unbracket?_eq_none {name : String} (h : isIdentifier name = true) :
    unbracket? name.toList = none := by
  cases hu : unbracket? name.toList with
  | none => rfl
  | some inside =>
    have hname := unbracket?_eq_some_iff.1 hu
    have hpart := Identifier.isPart_of_isIdentifier h '[' (by simp [hname])
    exact absurd hpart (by decide)

theorem ofKeyword?_eq_none {text : String} (h : ∀ p : Primitive, text ≠ p.keyword) :
    Primitive.ofKeyword? text = none := by
  cases hk : Primitive.ofKeyword? text with
  | none => rfl
  | some p => exact absurd (Primitive.ofKeyword?_eq_some_iff.1 hk) (h p)

/-- No keyword and not the name of the token type start with a bracket. -/
theorem bracketed_ne (inside : String) :
    (∀ p : Primitive, "[" ++ inside ++ "]" ≠ p.keyword) ∧ "[" ++ inside ++ "]" ≠ tokenName := by
  have hhead : ∀ word : String, "[" ++ inside ++ "]" = word → word.toList.head? = some '[' := by
    rintro word rfl
    simp
  refine ⟨?_, ?_⟩
  · intro p h
    have hp := hhead _ h
    cases p <;> exact absurd hp (by decide)
  · intro h
    exact absurd (hhead _ h) (by decide)

/-- Whatever is read stands in the text. -/
theorem reads_of_ofTrimmed {text : String} {t : TypeText} (h : ofTrimmed text = t)
    (hne : t ≠ .unknown) : Reads text t := by
  subst h
  unfold ofTrimmed at hne ⊢
  cases hk : Primitive.ofKeyword? text with
  | some p =>
    rw [Primitive.ofKeyword?_eq_some_iff.1 hk]
    exact .primitive p
  | none =>
    simp only [hk] at hne
    dsimp only
    have hkeyword : ∀ p : Primitive, text ≠ p.keyword := by
      intro p hp
      rw [Primitive.ofKeyword?_eq_some_iff.2 hp] at hk
      exact absurd hk (by simp)
    split at hne
    · next htoken =>
      rw [if_pos htoken, htoken]
      exact .token
    · next htoken =>
      rw [if_neg htoken]
      cases hu : unbracket? text.toList with
      | some inside =>
        simp only [hu] at hne
        dsimp only
        split at hne
        · next hi =>
          rw [if_pos hi]
          have htext : text = "[" ++ String.ofList inside ++ "]" := by
            apply String.toList_injective
            simp [unbracket?_eq_some_iff.1 hu]
          rw [htext]
          exact .list hi (by simp [Text.trim])
        · exact absurd rfl hne
      | none =>
        simp only [hu] at hne
        dsimp only
        split at hne
        · next hi =>
          rw [if_pos hi]
          exact .node ⟨hi, hkeyword, htoken⟩
        · exact absurd rfl hne

/-- Whatever can be read is read. -/
theorem Reads.ofTrimmed_eq {text : String} {t : TypeText} (h : Reads text t) :
    ofTrimmed text = t := by
  cases h with
  | primitive p =>
    have hk : Primitive.ofKeyword? p.keyword = some p := Primitive.ofKeyword?_eq_some_iff.2 rfl
    simp [ofTrimmed, hk]
  | token => decide
  | node h =>
    simp [ofTrimmed, ofKeyword?_eq_none h.ne_keyword, h.ne_token, unbracket?_eq_none h.identifier,
      h.identifier]
  | @list inside _ h ht =>
    obtain ⟨hkeyword, htoken⟩ := bracketed_ne inside
    have hu : unbracket? ("[" ++ inside ++ "]").toList = some inside.toList :=
      unbracket?_eq_some_iff.2 (by simp)
    have hi : String.ofList (Text.trimChars inside.toList) = _ := ht
    simp only [ofTrimmed, ofKeyword?_eq_none hkeyword, if_neg htoken, hu, hi, if_pos h]

/-- A text is read exactly as the relation says of what trimming leaves. -/
theorem parse_eq_iff_reads {t : TypeText} (h : t ≠ .unknown) :
    parse text = t ↔ Reads (Text.trim text) t :=
  ⟨fun hparse => reads_of_ofTrimmed hparse h, fun hreads => hreads.ofTrimmed_eq⟩

theorem parse_eq_unknown_iff_forall_not_reads :
    parse text = .unknown ↔ ∀ t, ¬ Reads (Text.trim text) t := by
  constructor
  · intro hparse t hreads
    exact hreads.ne_unknown (hreads.ofTrimmed_eq.symm.trans hparse)
  · intro hnone
    by_contra hne
    exact hnone _ ((parse_eq_iff_reads hne).1 rfl)

end TypeText

/-! ## Resolving a type text -/

/-- The text, without blanks at its ends, stands for the type of a field. The field is one of
the family called `own`, and the families called `earlier` are declared before that one. -/
def FieldType.IsSpelled (own : String) (earlier : List String) (text : String) : FieldType → Prop
  | .primitive p => text = p.keyword
  | .token => text = tokenName
  | .child => text = own
  | .children =>
    ∃ left right : String, Text.Blank left ∧ Text.Blank right ∧
      text = "[" ++ left ++ own ++ right ++ "]"
  | .foreignChild family => family ∈ earlier ∧ text = family

/-- A text stands for the same type among other families, if the one that it
refers to is there. -/
theorem FieldType.IsSpelled.rescope {own text : String} {earlier others : List String}
    {type : FieldType} (h : type.IsSpelled own earlier text)
    (hforeign : ∀ name, type = .foreignChild name → name ∈ others) :
    type.IsSpelled own others text := by
  cases type with
  | primitive p => exact h
  | token => exact h
  | child => exact h
  | foreignChild name => exact ⟨hforeign name rfl, h.2⟩
  | children => exact h

namespace Scope

/-- Every family that can be referred to has a name of its own that stands for a node. -/
structure Plain (scope : Scope) : Prop where
  own : TypeText.IsNodeName scope.own
  earlier : ∀ name ∈ scope.earlier, TypeText.IsNodeName name
  own_notMem_earlier : scope.own ∉ scope.earlier

theorem isSpelled_of_reads {scope : Scope} {text : String} {t : TypeText} {type : FieldType}
    (h : TypeText.Reads text t) (hr : scope.resolveText t = .found type) :
    type.IsSpelled scope.own scope.earlier text := by
  cases h with
  | primitive p =>
    obtain rfl : FieldType.primitive p = type := by simpa [resolveText] using hr
    rfl
  | token =>
    obtain rfl : FieldType.token = type := by simpa [resolveText] using hr
    rfl
  | node h =>
    simp only [resolveText] at hr
    split at hr
    · next hown =>
      obtain rfl : FieldType.child = type := by simpa using hr
      exact hown
    · split at hr
      · next hearlier =>
        obtain rfl : FieldType.foreignChild _ = type := by simpa using hr
        exact ⟨hearlier, rfl⟩
      · split at hr <;> exact absurd hr (by simp)
  | @list inside name h ht =>
    simp only [resolveText] at hr
    split at hr
    · next hown =>
      obtain rfl : FieldType.children = type := by simpa using hr
      subst hown
      obtain ⟨left, right, hl, hr, rfl⟩ := (Text.trim_eq_iff h).1 ht
      exact ⟨left, right, hl, hr, by simp [String.append_assoc]⟩
    · exact absurd hr (by simp)

theorem exists_reads_of_isSpelled {scope : Scope} (hs : scope.Plain) {text : String}
    {type : FieldType} (h : type.IsSpelled scope.own scope.earlier text) :
    ∃ t, TypeText.Reads text t ∧ scope.resolveText t = .found type := by
  cases type with
  | primitive p =>
    obtain rfl : text = p.keyword := h
    exact ⟨_, .primitive p, rfl⟩
  | token =>
    obtain rfl : text = tokenName := h
    exact ⟨_, .token, rfl⟩
  | child =>
    obtain rfl : text = scope.own := h
    exact ⟨_, .node hs.own, by simp [resolveText]⟩
  | foreignChild family =>
    obtain ⟨hmem, rfl⟩ : family ∈ scope.earlier ∧ text = family := h
    -- an earlier family is not the own one, so the first test of `resolveText` fails
    have hne : text ≠ scope.own := by
      rintro rfl
      exact hs.own_notMem_earlier hmem
    exact ⟨_, .node (hs.earlier text hmem), by simp [resolveText, hne, hmem]⟩
  | children =>
    obtain ⟨left, right, hl, hr, rfl⟩ :
        ∃ left right : String, Text.Blank left ∧ Text.Blank right ∧
          text = "[" ++ left ++ scope.own ++ right ++ "]" := h
    have ht : Text.trim (left ++ scope.own ++ right) = scope.own :=
      (Text.trim_eq_iff hs.own.identifier).2 ⟨left, right, hl, hr, rfl⟩
    have hreads := TypeText.Reads.list hs.own.identifier ht
    refine ⟨.list scope.own, ?_, by simp [resolveText]⟩
    simpa [String.append_assoc] using hreads

/-- A text resolves to a type exactly when it stands for the type. -/
theorem resolve_eq_found_iff {scope : Scope} (hs : scope.Plain) {text : String}
    {type : FieldType} :
    scope.resolve text = .found type ↔
      type.IsSpelled scope.own scope.earlier (Text.trim text) := by
  constructor
  · intro h
    have hne : TypeText.parse text ≠ .unknown := by
      intro hu
      simp [resolve, hu, resolveText] at h
    exact isSpelled_of_reads ((TypeText.parse_eq_iff_reads hne).1 rfl) h
  · intro h
    obtain ⟨t, hreads, ht⟩ := exists_reads_of_isSpelled hs h
    rw [resolve, TypeText.parse, hreads.ofTrimmed_eq, ht]

end Scope

end TreeHeaders
