import TreeHeaders.Proofs.HeaderLines
import Mathlib.Data.List.Basic

set_option autoImplicit false

/-!
# Clauses

What the lines of a header say about its types. Each line is read by itself, from its words and
without knowing the family: it declares a pure virtual method, overrides one, forwards a node to
a visitor, opens a node type, or declares a member. All other lines say nothing here.

Whether a line is mistaken for a clause is a question for every pair of a kind of line and a
kind of clause. Most of it is settled by how lines end, since every clause ends with `;` or an
opening brace (`Line.clause?_eq_none_of_endsMute`); the others are given by their words
(`Line.clause?_eq_of_words`).
-/

namespace TreeHeaders

/-- What one line of a header says. -/
inductive Clause where
  /-- a pure virtual method of one parameter, as in `virtual R m(P &) = 0;` -/
  | pureVirtual (result method parameter : String)
  /-- a method that overrides another one, as in `R m(P &v) override` and a brace -/
  | overriding (result method parameter : String)
  /-- the node is forwarded to a method of the visitor, as in `return v.m(*this);` -/
  | dispatch (method : String)
  /-- a type that derives from another one, as in `struct N : B` and a brace -/
  | node (name base : String)
  /-- a data member, as in `T n;` -/
  | member (type name : String)
  deriving DecidableEq, Repr, Inhabited

open Text

/-! ## Reading -/

namespace Clause

/-- The name of a method and the type of its parameter, from a word such as `m(P`. -/
def call? (word : String) : Option (String × String) :=
  match word.toList.dropWhile (· != '(') with
  | [] => none
  | _ :: parameter =>
    some (String.ofList (word.toList.takeWhile (· != '(')), String.ofList parameter)

/-- What the words of a line say. -/
def ofWords? : List String → Option Clause
  | [first, last] =>
    if first = "struct" then none
    else if first = "return" then (between? "v." "(*this);" last).map .dispatch
    else (between? "" ";" last).map (.member first)
  | [first, second, third, fourth, last] =>
    if last ≠ "\x7b" then none
    else if first = "struct" ∧ third = ":" then some (.node second fourth)
    else if third = "&v)" ∧ fourth = "override" then
      (call? second).map fun call => .overriding first call.1 call.2
    else none
  | [first, second, third, fourth, fifth, last] =>
    if first = "virtual" ∧ fourth = "&)" ∧ fifth = "=" ∧ last = "0;" then
      (call? third).map fun call => .pureVirtual second call.1 call.2
    else none
  | _ => none

theorem call?_eq_some {method parameter : String} (h : '(' ∉ method.toList) :
    call? (method ++ "(" ++ parameter) = some (method, parameter) := by
  have hall : ∀ c ∈ method.toList, (c != '(') = true := by
    intro c hc
    refine bne_iff_ne.2 ?_
    rintro rfl
    exact h hc
  have hchars : (method ++ "(" ++ parameter).toList = method.toList ++ '(' :: parameter.toList := by
    simp
  simp [call?, hchars, List.dropWhile_append_of_pos hall, List.takeWhile_append_of_pos hall]

/-- Does the character end no line that says something? -/
def isMute (c : Char) : Bool :=
  !c.isWhitespace && c != ';' && c != '\x7b'

theorem isMute_of_isPart {c : Char} (h : Identifier.isPart c = true ∨ c = ':') :
    isMute c = true := by
  by_contra hmute
  simp only [isMute, Char.isWhitespace, Bool.and_eq_true, Bool.not_eq_true', Bool.or_eq_false_iff,
    decide_eq_false_iff_not, bne_iff_ne, not_and_or, not_not] at hmute
  rcases hmute with ((((rfl | rfl) | rfl) | rfl) | rfl) | rfl
  all_goals exact absurd h (by decide)

theorem not_isWhitespace_of_isMute {c : Char} (h : isMute c = true) : c.isWhitespace = false := by
  simp only [isMute, Bool.and_eq_true, Bool.not_eq_true'] at h
  exact h.1.1

/-- Words say nothing if the last one ends in neither `;` nor a brace. -/
theorem ofWords?_eq_none {front : List String} {word : String} {c : Char}
    (hword : word.toList.getLast? = some c) (hc : isMute c = true) :
    ofWords? (front ++ [word]) = none := by
  have hne : ∀ {text : String} {d : Char}, text.toList.getLast? = some d → isMute d = false →
      word ≠ text := by
    rintro text d hd hmute rfl
    rw [hword, Option.some.injEq] at hd
    rw [hd, hmute] at hc
    exact absurd hc (by decide)
  have hbetween : ∀ {start back : String}, back.toList.getLast? = some ';' →
      between? start back word = none := by
    intro start back hback
    refine between?_eq_none_iff.2 fun inside => hne (d := ';') ?_ (by decide)
    rw [String.toList_append, List.getLast?_append, hback]
    rfl
  have hbrace : word ≠ "\x7b" := hne (d := '\x7b') (by decide) (by decide)
  have hzero : word ≠ "0;" := hne (d := ';') (by decide) (by decide)
  -- the number of words leaves at most one kind of ending to rule out
  match front with
  | [] => rfl
  | [first] =>
    have hdispatch : between? "v." "(*this);" word = none := hbetween (by decide)
    have hmember : between? "" ";" word = none := hbetween (by decide)
    simp [ofWords?, hdispatch, hmember]
  | [_, _] => rfl
  | [_, _, _] => rfl
  | [_, _, _, _] => simp [ofWords?, hbrace]
  | [_, _, _, _, _] => simp [ofWords?, hzero]
  | _ :: _ :: _ :: _ :: _ :: _ :: _ => simp [ofWords?]

end Clause

namespace Line

/-- What the line says, if anything. -/
def clause? (line : Line) : Option Clause :=
  Clause.ofWords? (words line.text)

/-- What the lines say, in order. -/
def clauses (lines : List Line) : List Clause :=
  lines.filterMap clause?

@[simp]
theorem clauses_nil : clauses [] = [] := rfl

@[simp]
theorem clauses_append (xs ys : List Line) : clauses (xs ++ ys) = clauses xs ++ clauses ys :=
  List.filterMap_append

@[simp]
theorem clauses_indented (lines : List Line) : clauses (indented lines) = clauses lines := by
  rw [clauses, indented, List.filterMap_map]
  rfl

theorem clauses_cons_of_none {line : Line} (h : line.clause? = none) (lines : List Line) :
    clauses (line :: lines) = clauses lines :=
  List.filterMap_cons_none h

theorem clauses_cons_of_some {line : Line} {clause : Clause} (h : line.clause? = some clause)
    (lines : List Line) : clauses (line :: lines) = clause :: clauses lines :=
  List.filterMap_cons_some h

theorem clauses_eq_nil {lines : List Line} (h : ∀ line ∈ lines, line.clause? = none) :
    clauses lines = [] :=
  List.filterMap_eq_nil_iff.2 h

theorem clauses_map {α : Type} {items : List α} {f : α → Line} {g : α → Clause}
    (h : ∀ item ∈ items, (f item).clause? = some (g item)) :
    clauses (items.map f) = items.map g := by
  rw [clauses, List.filterMap_map, ← List.filterMap_eq_map]
  exact List.filterMap_congr h

theorem clauses_flatMap {α : Type} {items : List α} {f : α → List Line} {g : α → List Clause}
    (h : ∀ item ∈ items, clauses (f item) = g item) :
    clauses (items.flatMap f) = items.flatMap g := by
  rw [clauses, List.filterMap_flatMap]
  exact List.flatMap_congr h

/-- A line that is given by its words says what they say. -/
theorem clause?_eq_of_words {line : Line} {ws : List String} (hw : ∀ w ∈ ws, IsWord w)
    (htext : line.text.toList = (" ".intercalate ws).toList) :
    line.clause? = Clause.ofWords? ws := by
  rw [clause?, String.toList_injective htext, words_intercalate hw]

/-- Does a line that ends with the text say nothing? -/
def endsMute (text : String) : Bool :=
  text.toList.getLast?.any Clause.isMute

/-- A text ends like what it ends with. -/
theorem any_getLast?_append {p : Char → Bool} {back : String}
    (h : back.toList.getLast?.any p = true) (front : String) :
    (front ++ back).toList.getLast?.any p = true := by
  cases hb : back.toList.getLast? with
  | none => simp [hb] at h
  | some c => simpa [List.getLast?_append, hb] using h

theorem endsMute_append {back : String} (h : endsMute back = true) (front : String) :
    endsMute (front ++ back) = true :=
  any_getLast?_append h front

theorem endsMute_of_isPart {text : String} (hne : text ≠ "")
    (h : ∀ c ∈ text.toList, Identifier.isPart c = true ∨ c = ':') : endsMute text = true := by
  unfold endsMute
  cases hlast : text.toList.getLast? with
  | none => exact absurd (String.toList_eq_nil_iff.1 (List.getLast?_eq_none_iff.1 hlast)) hne
  | some c => exact Clause.isMute_of_isPart (h c (List.mem_of_getLast? hlast))

theorem clause?_eq_none_of_endsMute {line : Line} (h : endsMute line.text = true) :
    line.clause? = none := by
  unfold endsMute at h
  cases hlast : line.text.toList.getLast? with
  | none => simp [hlast] at h
  | some c =>
    rw [hlast, Option.any_some] at h
    obtain ⟨front, word, hwords, hword⟩ :=
      exists_words_eq_append hlast (Clause.not_isWhitespace_of_isMute h)
    rw [clause?, hwords]
    exact Clause.ofWords?_eq_none hword h

theorem clause?_eq_none_of_append {line : Line} {front back : String} (h : endsMute back = true)
    (htext : line.text = front ++ back) : line.clause? = none := by
  refine clause?_eq_none_of_endsMute ?_
  rw [htext]
  exact endsMute_append h front

theorem clause?_blank : blank.clause? = none := by decide

end Line

/-! ## Words of names -/

theorem Text.isWord_of_isPart {text : String} (hne : text ≠ "")
    (h : ∀ c ∈ text.toList, Identifier.isPart c = true ∨ c = ':') : IsWord text :=
  ⟨hne, fun c hc => Clause.not_isWhitespace_of_isMute (Clause.isMute_of_isPart (h c hc))⟩

theorem Text.isWord_of_isIdentifier {name : String} (h : isIdentifier name = true) : IsWord name :=
  isWord_of_isPart (Identifier.ne_empty_of_isIdentifier h)
    fun c hc => Or.inl (Identifier.isPart_of_isIdentifier h c hc)

theorem Config.Accepted.isWord_namespaceName {config : Config} (h : config.Accepted) :
    IsWord config.namespaceName :=
  isWord_of_isPart (CommandLine.ne_empty_of_isNamespace h.namespaceName)
    fun _ hc => CommandLine.isPart_of_mem_namespace h.namespaceName hc

theorem Naming.isWord_visitorNamespace {family : String} (h : isIdentifier family = true) :
    IsWord (visitorNamespace family) :=
  isWord_of_isPart (visitorNamespace_ne_empty h) fun c hc => Or.inl (isPart_visitorNamespace h c hc)

theorem Naming.isWord_visitor {family result : String} (h : isIdentifier family = true)
    (hr : IsWord result) : IsWord (visitor family result) :=
  (((isWord_visitorNamespace h).append (by decide)).append hr).append (by decide)

end TreeHeaders
