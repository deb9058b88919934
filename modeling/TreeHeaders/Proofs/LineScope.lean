import TreeHeaders.Identifier
import TreeHeaders.Line

set_option autoImplicit false

/-!
# Scopes of lines

Reading the lines of a header for the names that they declare. A line that ends in an opening
brace starts a block, one that starts with a closing brace ends a block, and a name counts only
where it stands outside of all blocks among the lines.

Lines are put together from pieces, so what is said here of a piece is what it does to the count
of open blocks and to the names: `Yields`.
-/

namespace TreeHeaders.Line

/-! ## Reading one line -/

/-- Does the line start a block? -/
def opens (line : Line) : Bool :=
  line.text.toList.getLast? == some '\x7b'

/-- Does the line end a block? -/
def closes (line : Line) : Bool :=
  line.text.toList.head? == some '\x7d'

/-- The words in front of a declared name. -/
def declarators : List String :=
  ["using ", "struct ", "namespace "]

/-- The name that the line declares: the run of letters, digits and `_` after a declarator. -/
def declaredName? (line : Line) : Option String :=
  declarators.findSome? fun word =>
    if word.toList.isPrefixOf line.text.toList then
      some (String.ofList ((line.text.toList.drop word.toList.length).takeWhile Identifier.isPart))
    else none

/-- A line that neither starts nor ends a block. -/
structure Neutral (line : Line) : Prop where
  opens : line.opens = false
  closes : line.closes = false

/-! ## Reading many lines -/

/-- The number of open blocks after the lines, given that before them. -/
def levelAfter : Nat → List Line → Nat
  | level, [] => level
  | level, line :: lines =>
    let inner := if line.closes then level - 1 else level
    levelAfter (if line.opens then inner + 1 else inner) lines

/-- The names that the lines declare outside of all blocks, given the number of blocks that
are open before them. -/
def scopeNames : Nat → List Line → List String
  | _, [] => []
  | level, line :: lines =>
    let inner := if line.closes then level - 1 else level
    (if inner = 0 then line.declaredName?.toList else []) ++
      scopeNames (if line.opens then inner + 1 else inner) lines

/-- With `level` blocks open, the lines declare the names and leave the same blocks open. -/
structure Yields (level : Nat) (lines : List Line) (names : List String) : Prop where
  names : scopeNames level lines = names
  level : levelAfter level lines = level

/-- Inside a block the lines leave no trace. -/
def Inert (lines : List Line) : Prop :=
  ∀ level, Yields (level + 1) lines []

theorem levelAfter_append (level : Nat) (xs ys : List Line) :
    levelAfter level (xs ++ ys) = levelAfter (levelAfter level xs) ys := by
  induction xs generalizing level with
  | nil => rfl
  | cons x xs ih => simp only [List.cons_append, levelAfter, ih]

theorem scopeNames_append (level : Nat) (xs ys : List Line) :
    scopeNames level (xs ++ ys) = scopeNames level xs ++ scopeNames (levelAfter level xs) ys := by
  induction xs generalizing level with
  | nil => rfl
  | cons x xs ih => simp only [List.cons_append, scopeNames, levelAfter, ih, List.append_assoc]

namespace Yields

theorem nil (level : Nat) : Yields level [] [] :=
  ⟨rfl, rfl⟩

theorem append {level : Nat} {xs ys : List Line} {left right : List String}
    (hx : Yields level xs left) (hy : Yields level ys right) :
    Yields level (xs ++ ys) (left ++ right) := by
  refine ⟨?_, ?_⟩
  · rw [scopeNames_append, hx.level, hx.names, hy.names]
  · rw [levelAfter_append, hx.level, hy.level]

theorem flatMap {α : Type} {level : Nat} {items : List α} {f : α → List Line}
    {g : α → List String} (h : ∀ item ∈ items, Yields level (f item) (g item)) :
    Yields level (items.flatMap f) (items.flatMap g) := by
  induction items with
  | nil => exact nil level
  | cons item items ih =>
    have hhead := h item (by simp)
    have htail := ih fun other hother => h other (List.mem_cons_of_mem item hother)
    exact hhead.append htail

theorem map {α : Type} {level : Nat} {items : List α} {f : α → Line} {g : α → String}
    (h : ∀ item ∈ items, Yields level [f item] [g item]) :
    Yields level (items.map f) (items.map g) := by
  rw [List.map_eq_flatMap, List.map_eq_flatMap]
  exact flatMap h

/-- A neutral line outside of all blocks. -/
theorem of_neutral {line : Line} (h : line.Neutral) :
    Yields 0 [line] line.declaredName?.toList := by
  refine ⟨?_, ?_⟩
  · simp [scopeNames, h.closes]
  · simp [levelAfter, h.opens, h.closes]

/-- Lines in a block outside of all others: only the line that starts it can declare a name. -/
theorem block {first last : Line} {body : List Line} (hfo : first.opens = true)
    (hfc : first.closes = false) (hlo : last.opens = false) (hlc : last.closes = true)
    (hname : last.declaredName? = none) (h : Inert body) :
    Yields 0 ([first] ++ body ++ [last]) first.declaredName?.toList := by
  have hbody : Yields 1 body [] := h 0
  refine ⟨?_, ?_⟩
  · simp [scopeNames, scopeNames_append, hfo, hfc, hlc, hname, hbody.level, hbody.names]
  · simp [levelAfter, levelAfter_append, hfo, hfc, hlo, hlc, hbody.level]

end Yields

namespace Inert

theorem nil : Inert [] :=
  fun level => Yields.nil (level + 1)

theorem append {xs ys : List Line} (hx : Inert xs) (hy : Inert ys) : Inert (xs ++ ys) :=
  fun level => (hx level).append (hy level)

theorem of_neutral {lines : List Line} (h : ∀ line ∈ lines, line.Neutral) : Inert lines := by
  intro level
  induction lines with
  | nil => exact Yields.nil (level + 1)
  | cons line lines ih =>
    have hline := h line (by simp)
    have hlines := ih fun other hother => h other (List.mem_cons_of_mem line hother)
    refine ⟨?_, ?_⟩
    · simp [scopeNames, hline.opens, hline.closes, hlines.names]
    · simp [levelAfter, hline.opens, hline.closes, hlines.level]

theorem of_line {line : Line} (h : line.Neutral) : Inert [line] :=
  of_neutral (by simpa using h)

theorem flatMap {α : Type} {items : List α} {f : α → List Line}
    (h : ∀ item ∈ items, Inert (f item)) : Inert (items.flatMap f) := by
  induction items with
  | nil => exact nil
  | cons item items ih =>
    have htail := ih fun other hother => h other (List.mem_cons_of_mem item hother)
    exact (h item (by simp)).append htail

/-- A block inside another one. -/
theorem block {first last : Line} {body : List Line} (hfo : first.opens = true)
    (hfc : first.closes = false) (hlo : last.opens = false) (hlc : last.closes = true)
    (h : Inert body) : Inert ([first] ++ body ++ [last]) := by
  intro level
  have hbody : Yields (level + 2) body [] := h (level + 1)
  refine ⟨?_, ?_⟩
  · simp [scopeNames, scopeNames_append, hfo, hfc, hlc, hbody.level, hbody.names]
  · simp [levelAfter, levelAfter_append, hfo, hfc, hlo, hlc, hbody.level]

end Inert

/-! ## Indentation -/

theorem levelAfter_indented (level : Nat) (lines : List Line) :
    levelAfter level (indented lines) = levelAfter level lines := by
  induction lines generalizing level with
  | nil => rfl
  | cons line lines ih => exact ih _

theorem scopeNames_indented (level : Nat) (lines : List Line) :
    scopeNames level (indented lines) = scopeNames level lines := by
  induction lines generalizing level with
  | nil => rfl
  | cons line lines ih => exact congrArg (_ ++ ·) (ih _)

theorem Inert.indented {lines : List Line} (h : Inert lines) : Inert (Line.indented lines) := by
  intro level
  refine ⟨?_, ?_⟩
  · rw [scopeNames_indented, (h level).names]
  · rw [levelAfter_indented, (h level).level]

/-! ## Lines made of texts -/

/-- The name after a declarator is read up to the first character that is no part of it. -/
theorem declaredName?_flat {word name rest : String} (hword : word ∈ declarators)
    (hname : ∀ c ∈ name.toList, Identifier.isPart c = true)
    (hrest : ∀ c, rest.toList.head? = some c → Identifier.isPart c = false) :
    (flat (word ++ name ++ rest)).declaredName? = some name := by
  have htake : (name.toList ++ rest.toList).takeWhile Identifier.isPart = name.toList := by
    rw [List.takeWhile_append_of_pos hname]
    cases hr : rest.toList with
    | nil => simp
    | cons c cs => simp [hrest c (by simp [hr])]
  simp only [declarators, List.mem_cons, List.not_mem_nil, or_false] at hword
  rcases hword with rfl | rfl | rfl
  · simp [declaredName?, declarators, flat, htake]
  · simp [declaredName?, declarators, flat, htake]
  · simp [declaredName?, declarators, flat, htake]

/-- Does a line that starts with the text end no block? -/
def leads (text : String) : Bool :=
  text.toList.head?.any (· != '\x7d')

/-- Does a line that ends with the text start no block? -/
def trails (text : String) : Bool :=
  text.toList.getLast?.any (· != '\x7b')

theorem leads_append {front : String} (h : leads front = true) (back : String) :
    leads (front ++ back) = true := by
  unfold leads at h ⊢
  cases hf : front.toList with
  | nil => simp [hf] at h
  | cons c cs => simpa [hf] using h

theorem closes_of_leads {text : String} (h : leads text = true) : (flat text).closes = false := by
  unfold leads at h
  unfold closes flat
  cases ht : text.toList with
  | nil => simp [ht] at h
  | cons c cs => simpa [ht] using h

theorem trails_append {back : String} (h : trails back = true) (front : String) :
    trails (front ++ back) = true := by
  unfold trails at h ⊢
  cases hb : back.toList.getLast? with
  | none => simp [hb] at h
  | some c => simpa [List.getLast?_append, hb] using h

theorem opens_of_trails {text : String} (h : trails text = true) : (flat text).opens = false := by
  unfold trails at h
  unfold opens flat
  cases ht : text.toList.getLast? with
  | none => simp [ht] at h
  | some c => simpa [ht] using h

theorem opens_append {back : String} (h : (flat back).opens = true) (front : String) :
    (flat (front ++ back)).opens = true := by
  have hlast : back.toList.getLast? = some '\x7b' := beq_iff_eq.1 h
  simp [opens, flat, List.getLast?_append, hlast]

theorem neutral_flat {front back : String} (hfront : leads front = true)
    (hback : trails back = true) : Neutral (flat (front ++ back)) :=
  ⟨opens_of_trails (trails_append hback front), closes_of_leads (leads_append hfront back)⟩

theorem leads_declarator {word : String} (hword : word ∈ declarators) : leads word = true := by
  simp only [declarators, List.mem_cons, List.not_mem_nil, or_false] at hword
  rcases hword with rfl | rfl | rfl
  · rfl
  · rfl
  · rfl

theorem leads_of_isIdentifier {name : String} (h : isIdentifier name = true) :
    leads name = true := by
  have hpart := Identifier.isPart_of_isIdentifier h
  unfold leads
  cases hn : name.toList with
  | nil => exact absurd (String.toList_eq_nil_iff.1 hn) (Identifier.ne_empty_of_isIdentifier h)
  | cons c cs =>
    have hc : c ≠ '\x7d' := by
      intro hbrace
      have hfirst := hpart c (by simp [hn])
      rw [hbrace] at hfirst
      exact absurd hfirst (by decide)
    simp [hc]

theorem trails_of_isPart {name : String} (hne : name ≠ "")
    (hname : ∀ c ∈ name.toList, Identifier.isPart c = true) : trails name = true := by
  unfold trails
  cases hn : name.toList.getLast? with
  | none => exact absurd (String.toList_eq_nil_iff.1 (List.getLast?_eq_none_iff.1 hn)) hne
  | some c =>
    have hc : c ≠ '\x7b' := by
      intro hbrace
      have hlast := hname c (List.mem_of_getLast? hn)
      rw [hbrace] at hlast
      exact absurd hlast (by decide)
    simp [hc]

theorem neutral_blank : Neutral blank :=
  ⟨rfl, rfl⟩

theorem inert_blank : Inert [blank] :=
  Inert.of_line neutral_blank

theorem yields_blank : Yields 0 [blank] [] :=
  Yields.of_neutral neutral_blank

namespace Yields

variable {word name rest : String}

/-- One line that declares a name. -/
theorem declaration (hword : word ∈ declarators)
    (hname : ∀ c ∈ name.toList, Identifier.isPart c = true)
    (hrest : ∀ c, rest.toList.head? = some c → Identifier.isPart c = false)
    (htrails : trails rest = true) :
    Yields 0 [flat (word ++ name ++ rest)] [name] := by
  have h := of_neutral (neutral_flat (leads_append (leads_declarator hword) name) htrails)
  rw [declaredName?_flat hword hname hrest] at h
  exact h

/-- A block that declares a name. -/
theorem definition {last : Line} {body : List Line} (hword : word ∈ declarators)
    (hname : ∀ c ∈ name.toList, Identifier.isPart c = true)
    (hrest : ∀ c, rest.toList.head? = some c → Identifier.isPart c = false)
    (hopens : (flat rest).opens = true) (hlo : last.opens = false)
    (hlc : last.closes = true) (hln : last.declaredName? = none) (h : Inert body) :
    Yields 0 ([flat (word ++ name ++ rest)] ++ body ++ [last]) [name] := by
  have hfirst : (flat (word ++ name ++ rest)).opens = true := opens_append hopens (word ++ name)
  have hcloses : (flat (word ++ name ++ rest)).closes = false :=
    closes_of_leads (leads_append (leads_append (leads_declarator hword) name) rest)
  have hblock := block hfirst hcloses hlo hlc hln h
  rw [declaredName?_flat hword hname hrest] at hblock
  exact hblock

end Yields

end TreeHeaders.Line
