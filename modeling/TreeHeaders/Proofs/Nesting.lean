import TreeHeaders.Proofs.HeaderLines

set_option autoImplicit false

/-!
# Brackets

The brackets of a text, and which sequences of brackets are nested: those that a grammar derives
(`Nested`), which are those that a reader with a stack accepts (`nested_iff_unclosed`).

The brackets of a header are opened and closed by different lines, so the statement about a
header is made up of statements about groups of lines that leave nothing open (`Line.Balanced`).
Names bring no brackets with them; only the type of a visitor does, and it closes them itself.
-/

namespace TreeHeaders

namespace Text

/-! ## Nested brackets -/

/-- The opening brackets, each with the one that closes it. -/
def bracketPairs : List (Char × Char) :=
  [('\x7b', '\x7d'), ('(', ')'), ('<', '>')]

/-- Is the character a bracket? -/
def isBracket (c : Char) : Bool :=
  bracketPairs.any fun pair => c == pair.1 || c == pair.2

/-- The brackets of a text, in order. -/
def brackets (text : String) : List Char :=
  text.toList.filter isBracket

/-- The sequences of brackets in which each one is closed by its own, and what stands between
the two is nested in turn. -/
inductive Nested : List Char → Prop where
  | nil : Nested []
  | enclose {left right : Char} {inside rest : List Char} (pair : (left, right) ∈ bracketPairs)
      (hinside : Nested inside) (hrest : Nested rest) : Nested (left :: inside ++ right :: rest)

/-- The brackets that are left to be closed, innermost first, if none closes what is not open.
The first argument holds those that are open before. -/
def unclosed : List Char → List Char → Option (List Char)
  | awaited, [] => some awaited
  | awaited, c :: cs =>
    match bracketPairs.lookup c with
    | some right => unclosed (right :: awaited) cs
    | none =>
      match awaited with
      | [] => none
      | right :: awaited => if c = right then unclosed awaited cs else none

/-- An opening bracket is closed by one bracket only, and no bracket both opens and closes. -/
theorem lookup_of_mem {left right : Char} (h : (left, right) ∈ bracketPairs) :
    bracketPairs.lookup left = some right ∧ bracketPairs.lookup right = none := by
  simp only [bracketPairs, List.mem_cons, Prod.mk.injEq, List.not_mem_nil, or_false] at h
  rcases h with ⟨rfl, rfl⟩ | ⟨rfl, rfl⟩ | ⟨rfl, rfl⟩
  · exact ⟨rfl, rfl⟩
  · exact ⟨rfl, rfl⟩
  · exact ⟨rfl, rfl⟩

theorem mem_of_lookup {left right : Char} (h : bracketPairs.lookup left = some right) :
    (left, right) ∈ bracketPairs := by
  obtain ⟨before, after, hpairs, -⟩ := List.lookup_eq_some_iff.1 h
  rw [hpairs]
  exact List.mem_append_right before List.mem_cons_self

theorem unclosed_append {cs : List Char} (h : Nested cs) (awaited rest : List Char) :
    unclosed awaited (cs ++ rest) = unclosed awaited rest := by
  induction h generalizing awaited rest with
  | nil => rfl
  | @enclose left right inside after pair _ _ ihinside ihafter =>
    obtain ⟨hleft, hright⟩ := lookup_of_mem pair
    have hassoc : left :: inside ++ right :: after ++ rest =
        left :: (inside ++ right :: (after ++ rest)) := by
      simp
    have hopen : unclosed awaited (left :: (inside ++ right :: (after ++ rest))) =
        unclosed (right :: awaited) (inside ++ right :: (after ++ rest)) := by
      simp [unclosed, hleft]
    have hclose : unclosed (right :: awaited) (right :: (after ++ rest)) =
        unclosed awaited (after ++ rest) := by
      simp [unclosed, hright]
    rw [hassoc, hopen, ihinside, hclose, ihafter]

/-- The characters close what is awaited, from the innermost on, with nested brackets in
between and after it. -/
def Closes : List Char → List Char → Prop
  | [], cs => Nested cs
  | right :: awaited, cs =>
    ∃ inside rest, cs = inside ++ right :: rest ∧ Nested inside ∧ Closes awaited rest

/-- An opening bracket in front takes up the first of what is closed. -/
theorem Closes.open {left right : Char} {awaited cs : List Char}
    (pair : (left, right) ∈ bracketPairs) (h : Closes (right :: awaited) cs) :
    Closes awaited (left :: cs) := by
  obtain ⟨inside, rest, rfl, hinside, hrest⟩ := h
  cases awaited with
  | nil => exact .enclose pair hinside hrest
  | cons next awaited =>
    obtain ⟨between, rest, rfl, hbetween, hrest⟩ := hrest
    exact ⟨left :: inside ++ right :: between, rest, by simp, .enclose pair hinside hbetween, hrest⟩

theorem closes_of_unclosed {awaited cs : List Char} (h : unclosed awaited cs = some []) :
    Closes awaited cs := by
  induction cs generalizing awaited with
  | nil =>
    obtain rfl : awaited = [] := by simpa [unclosed] using h
    exact .nil
  | cons c cs ih =>
    unfold unclosed at h
    split at h
    · next right hright => exact (ih h).open (mem_of_lookup hright)
    · split at h
      · exact absurd h (by simp)
      · next right awaited _ =>
        split at h
        · next heq => exact ⟨[], cs, by rw [heq]; rfl, .nil, ih h⟩
        · exact absurd h (by simp)

/-- The reader accepts what the grammar derives, and nothing else. -/
theorem nested_iff_unclosed {cs : List Char} : Nested cs ↔ unclosed [] cs = some [] := by
  constructor
  · intro h
    have happend := unclosed_append h [] []
    rwa [List.append_nil] at happend
  · exact closes_of_unclosed

instance : DecidablePred Nested :=
  fun _ => decidable_of_iff _ nested_iff_unclosed.symm

example : Nested (brackets "f(std::vector<T> &&v) \x7b\x7d") ∧ ¬ Nested (brackets "f(v<T)>") := by
  decide

theorem Nested.append {xs ys : List Char} (hx : Nested xs) (hy : Nested ys) :
    Nested (xs ++ ys) := by
  induction hx with
  | nil => exact hy
  | enclose pair hinside _ _ ih =>
    rw [List.append_assoc, List.cons_append]
    exact .enclose pair hinside ih

/-! ## Brackets of a text -/

theorem brackets_append (left right : String) :
    brackets (left ++ right) = brackets left ++ brackets right := by
  simp [brackets]

theorem brackets_eq_nil {text : String} (h : ∀ c ∈ text.toList, isBracket c = false) :
    brackets text = [] := by
  rw [brackets, List.filter_eq_nil_iff]
  intro c hc
  rw [h c hc]
  decide

theorem isBracket_of_isPart {c : Char} (h : Identifier.isPart c = true ∨ c = ':') :
    isBracket c = false := by
  by_contra hbracket
  simp only [isBracket, bracketPairs, Bool.not_eq_false, List.any_cons, List.any_nil, Bool.or_false,
    Bool.or_eq_true, beq_iff_eq] at hbracket
  rcases hbracket with (rfl | rfl) | (rfl | rfl) | (rfl | rfl)
  all_goals exact absurd h (by decide)

/-- Names are free of brackets, also those with a namespace in front. -/
theorem brackets_of_isPart {text : String}
    (h : ∀ c ∈ text.toList, Identifier.isPart c = true ∨ c = ':') : brackets text = [] :=
  brackets_eq_nil fun c hc => isBracket_of_isPart (h c hc)

theorem brackets_of_isIdentifier {name : String} (h : isIdentifier name = true) :
    brackets name = [] :=
  brackets_of_isPart fun c hc => Or.inl (Identifier.isPart_of_isIdentifier h c hc)

theorem brackets_intercalate {sep : String} (hsep : brackets sep = []) {texts : List String}
    (h : ∀ text ∈ texts, brackets text = []) : brackets (sep.intercalate texts) = [] := by
  induction texts with
  | nil => rfl
  | cons text texts ih =>
    have htext : brackets text = [] := h text (by simp)
    have htexts : brackets (sep.intercalate texts) = [] :=
      ih fun other hother => h other (List.mem_cons_of_mem text hother)
    cases texts with
    | nil => simpa using htext
    | cons next rest =>
      simp only [String.intercalate_cons_cons, brackets_append, htext, hsep, htexts]
      rfl

end Text

open Text

/-! ## Groups of lines -/

namespace Line

/-- The lines close every bracket that they open, and no other. -/
def Balanced (lines : List Line) : Prop :=
  Nested (lines.flatMap fun line => brackets line.text)

namespace Balanced

theorem append {xs ys : List Line} (hx : Balanced xs) (hy : Balanced ys) : Balanced (xs ++ ys) := by
  rw [Balanced, List.flatMap_append]
  exact Nested.append hx hy

theorem flatMap {α : Type} {items : List α} {f : α → List Line}
    (h : ∀ item ∈ items, Balanced (f item)) : Balanced (items.flatMap f) := by
  induction items with
  | nil => exact .nil
  | cons item items ih =>
    have htail := ih fun other hother => h other (List.mem_cons_of_mem item hother)
    exact (h item (by simp)).append htail

theorem cons {line : Line} {lines : List Line} (h : Nested (brackets line.text))
    (hlines : Balanced lines) : Balanced (line :: lines) :=
  Nested.append h hlines

theorem of_line {line : Line} (h : Nested (brackets line.text)) : Balanced [line] :=
  cons h .nil

/-- Lines that are balanced one by one. -/
theorem of_forall {lines : List Line} (h : ∀ line ∈ lines, Nested (brackets line.text)) :
    Balanced lines := by
  induction lines with
  | nil => exact .nil
  | cons line lines ih =>
    have htail := ih fun other hother => h other (List.mem_cons_of_mem line hother)
    exact cons (h line (by simp)) htail

/-- Lines between a line that ends with an opening brace and one with the closing brace. -/
theorem block (first last : Line) {before : List Char} {body : List Line}
    (hfirst : brackets first.text = before ++ ['\x7b']) (hbefore : Nested before)
    (hlast : brackets last.text = ['\x7d']) (hbody : Balanced body) :
    Balanced ([first] ++ body ++ [last]) := by
  have hbraces : Nested ('\x7b' :: body.flatMap (fun line => brackets line.text) ++ ['\x7d']) :=
    .enclose (by simp [bracketPairs]) hbody .nil
  have hblock := hbefore.append hbraces
  simpa [Balanced, hfirst, hlast] using hblock

theorem indented {lines : List Line} (h : Balanced lines) : Balanced (Line.indented lines) := by
  rw [Balanced, Line.indented, List.flatMap_map]
  exact h

end Balanced

theorem balanced_blank : Balanced [blank] :=
  Balanced.of_line .nil

theorem brackets_shown (config : Config) (line : Line) :
    brackets (line.shown config) = brackets line.text := by
  obtain ⟨blanks, hblanks, hshown⟩ := line.exists_shown_eq config
  have hnil : brackets blanks = [] := by
    refine brackets_eq_nil fun c hc => ?_
    rcases hblanks c hc with rfl | rfl
    · decide
    · decide
  rw [hshown, brackets_append, hnil, List.nil_append]

/-- The margins and the ends of lines have no brackets. -/
theorem brackets_renderAll (config : Config) (lines : List Line) :
    brackets (renderAll config lines) = lines.flatMap fun line => brackets line.text := by
  have hending : brackets config.lineEnding.text = [] := by
    cases config.lineEnding <;> decide
  induction lines with
  | nil => rw [renderAll_nil]; rfl
  | cons line lines ih =>
    rw [renderAll_cons, brackets_append, brackets_append, brackets_shown, hending, List.append_nil,
      ih, List.flatMap_cons]

end Line

open Line

/-! ## Lines of a visitor -/

namespace Visitor

variable {visitor : Visitor}

theorem balanced_enclosed (h : brackets visitor.namespaceName = []) {body : List Line}
    (hbody : Balanced body) : Balanced (visitor.enclosed body) := by
  have hfirst : brackets ("namespace " ++ visitor.namespaceName ++ " \x7b") = [] ++ ['\x7b'] := by
    simp only [brackets_append, h]
    rfl
  have hlast : brackets ("\x7d // namespace " ++ visitor.namespaceName) = ['\x7d'] := by
    rw [brackets_append, h]
    rfl
  have hblock := Balanced.block (flat ("namespace " ++ visitor.namespaceName ++ " \x7b"))
    (flat ("\x7d // namespace " ++ visitor.namespaceName)) hfirst .nil hlast
    ((balanced_blank.append hbody).append balanced_blank)
  simpa [enclosed] using hblock

theorem balanced_declarationLines (h : brackets visitor.namespaceName = []) :
    Balanced visitor.declarationLines :=
  balanced_enclosed h (by decide : Nested _)

theorem balanced_lines (h : brackets visitor.namespaceName = [])
    (hmethods : ∀ method ∈ visitor.methods,
      brackets method.name = [] ∧ brackets method.variant = []) : Balanced visitor.lines := by
  have htemplate : Balanced [flat "template <typename T>"] :=
    Balanced.of_line (by decide)
  have hmethodLines : Balanced (visitor.methods.map methodLine) := by
    refine Balanced.of_forall ?_
    intro line hline
    obtain ⟨method, hmethod, rfl⟩ := List.mem_map.1 hline
    obtain ⟨hname, hvariant⟩ := hmethods method hmethod
    have hbrackets : brackets (methodLine method).text = ['(', ')'] := by
      simp only [methodLine, text_flat, brackets_append, hname, hvariant]
      rfl
    rw [hbrackets]
    decide
  have hdestructor : Balanced [flat "virtual ~Visitor() = default;"] :=
    Balanced.of_line (by decide)
  have hfirst : brackets "struct Visitor \x7b" = [] ++ ['\x7b'] := rfl
  have hstruct := Balanced.block (flat "struct Visitor \x7b") (flat "\x7d;") hfirst .nil (by decide)
    (hmethodLines.append hdestructor).indented
  have hbody := balanced_enclosed h (htemplate.append hstruct)
  simpa [lines] using hbody

end Visitor

/-! ## Lines of a node -/

/-- No text in the parts of the node has brackets, but for the types of visitors. -/
structure Node.Unbracketed (node : Node) : Prop where
  name : brackets node.name = []
  base : brackets node.base = []
  members : ∀ member ∈ node.members, brackets member.type = [] ∧ brackets member.name = []
  parameters : ∀ parameter ∈ node.parameters,
    brackets parameter.type = [] ∧ brackets parameter.name = [] ∧ brackets parameter.member = []
  entryPoints : ∀ entry ∈ node.entryPoints,
    brackets entry.result = [] ∧ brackets entry.visitor = ['<', '>'] ∧ brackets entry.dispatch = []

namespace Parameter

variable {parameter : Parameter}

theorem brackets_declaration (ht : brackets parameter.type = [])
    (hn : brackets parameter.name = []) : brackets parameter.declaration = [] := by
  unfold declaration
  cases parameter.passing with
  | copy => simp only [brackets_append, ht, hn]; rfl
  | move => simp only [brackets_append, ht, hn]; rfl
  | moveWhole => simp only [brackets_append, ht, hn]; rfl

theorem nested_initialiser (hm : brackets parameter.member = [])
    (hn : brackets parameter.name = []) : Nested (brackets parameter.initialiser) := by
  have hplain : ∀ front back : String,
      brackets (parameter.member ++ front ++ parameter.name ++ back) =
        brackets front ++ brackets back := by
    intro front back
    simp only [brackets_append, hm, hn, List.nil_append, List.append_nil]
  unfold initialiser
  cases parameter.passing with
  | copy => rw [hplain]; decide
  | move => rw [hplain]; decide
  | moveWhole => rw [hplain]; decide

theorem balanced_initialiserLines {leader : String} (hleader : brackets leader = [])
    {parameters : List Parameter}
    (h : ∀ parameter ∈ parameters, Nested (brackets parameter.initialiser)) :
    Balanced (initialiserLines leader parameters) := by
  -- what ends the line closes itself, be it a comma or the empty body of the constructor
  have hline : ∀ {leader trailer : String} {parameter : Parameter}, brackets leader = [] →
      Nested (brackets parameter.initialiser) → Nested (brackets trailer) →
        Balanced [continued (leader ++ parameter.initialiser ++ trailer)] := by
    intro leader trailer parameter hleader hinitialiser htrailer
    refine Balanced.of_line ?_
    simp only [text_continued, brackets_append, hleader, List.nil_append]
    exact hinitialiser.append htrailer
  fun_induction initialiserLines leader parameters with
  | case1 => exact .nil
  | case2 leader parameter => exact hline hleader (h parameter (by simp)) (by decide)
  | case3 leader parameter rest _ ih =>
    have hrest : Balanced (initialiserLines "  " rest) :=
      ih rfl fun other hother => h other (List.mem_cons_of_mem parameter hother)
    exact (hline hleader (h parameter (by simp)) (by decide)).append hrest

end Parameter

namespace Node

variable {node : Node}

theorem balanced_memberLines (h : node.Unbracketed) : Balanced node.memberLines := by
  unfold memberLines
  split
  · exact .nil
  · refine Balanced.append (Balanced.of_forall ?_) balanced_blank
    intro line hline
    obtain ⟨member, hmember, rfl⟩ := List.mem_map.1 hline
    obtain ⟨htype, hname⟩ := h.members member hmember
    have hbrackets : brackets (member.type ++ " " ++ member.name ++ ";") = [] := by
      simp only [brackets_append, htype, hname]
      rfl
    rw [text_flat, hbrackets]
    exact .nil

theorem balanced_constructorLines (h : node.Unbracketed) : Balanced node.constructorLines := by
  have hdeclarations : brackets (", ".intercalate (node.parameters.map Parameter.declaration)) =
      [] := by
    refine brackets_intercalate rfl (List.forall_mem_map.2 ?_)
    intro parameter hparameter
    obtain ⟨htype, hname, -⟩ := h.parameters parameter hparameter
    exact Parameter.brackets_declaration htype hname
  have hinitialisers : Balanced (Parameter.initialiserLines ": " node.parameters) := by
    refine Parameter.balanced_initialiserLines rfl ?_
    intro parameter hparameter
    obtain ⟨-, hname, hmember⟩ := h.parameters parameter hparameter
    exact Parameter.nested_initialiser hmember hname
  unfold constructorLines
  split
  · refine Balanced.of_line ?_
    rw [text_flat, brackets_append, h.name]
    decide
  · refine Balanced.cons ?_ hinitialisers
    simp only [text_flat, brackets_append, h.name, hdeclarations]
    decide

theorem balanced_entryPointLines {entry : EntryPoint} (hresult : brackets entry.result = [])
    (hvisitor : brackets entry.visitor = ['<', '>']) (hdispatch : brackets entry.dispatch = []) :
    Balanced (entryPointLines entry) := by
  have hopening : brackets (entry.result ++ " accept(" ++ entry.visitor ++
      " &v) override \x7b") = ['(', '<', '>', ')'] ++ ['\x7b'] := by
    simp only [brackets_append, hresult, hvisitor]
    rfl
  have hreturn : Balanced [deeper (flat ("return v." ++ entry.dispatch ++ "(*this);"))] := by
    refine Balanced.of_line ?_
    simp only [text_deeper, text_flat, brackets_append, hdispatch]
    decide
  have hblock := Balanced.block
    (flat (entry.result ++ " accept(" ++ entry.visitor ++ " &v) override \x7b")) (flat "\x7d")
    hopening (by decide) (by decide) hreturn
  exact balanced_blank.append hblock

theorem balanced_lines (h : node.Unbracketed) : Balanced node.lines := by
  have hopening : brackets ("struct " ++ node.name ++ " : " ++ node.base ++ " \x7b") =
      [] ++ ['\x7b'] := by
    simp only [brackets_append, h.name, h.base]
    rfl
  have hentries : Balanced (node.entryPoints.flatMap entryPointLines) := by
    refine Balanced.flatMap ?_
    intro entry hentry
    obtain ⟨hresult, hvisitor, hdispatch⟩ := h.entryPoints entry hentry
    exact balanced_entryPointLines hresult hvisitor hdispatch
  exact Balanced.block _ _ hopening .nil (by decide)
    (((balanced_memberLines h).append (balanced_constructorLines h)).append hentries).indented

end Node

/-! ## Lines of a header -/

theorem Naming.brackets_visitor {family result : String} (hf : isIdentifier family = true)
    (hr : brackets result = []) : brackets (visitor family result) = ['<', '>'] := by
  have hnamespace : brackets (visitorNamespace family) = [] :=
    brackets_of_isPart fun c hc => Or.inl (isPart_visitorNamespace hf c hc)
  simp only [visitor, brackets_append, hnamespace, hr]
  rfl

theorem Naming.brackets_guard (config : Config) (family : String) :
    brackets (guard config family) = [] :=
  brackets_of_isPart fun c hc => Or.inl (isPart_guard config family c hc)

namespace Config.Accepted

variable {config : Config}

theorem brackets_namespaceName (h : config.Accepted) : brackets config.namespaceName = [] :=
  brackets_of_isPart fun _ hc => CommandLine.isPart_of_mem_namespace h.namespaceName hc

theorem brackets_headerFile (h : config.Accepted) {family : String}
    (hf : isIdentifier family = true) : brackets (Naming.headerFile config family) = [] := by
  have hextension : brackets config.extension = [] := by
    refine brackets_eq_nil fun c hc => ?_
    have hall := h.extension
    simp only [CommandLine.isExtension, Bool.and_eq_true, List.all_eq_true] at hall
    have hchar := hall.2 c hc
    simp only [CommandLine.isExtensionChar, Bool.or_eq_true, decide_eq_true_eq] at hchar
    rcases hchar with ((halphanum | rfl) | rfl) | rfl
    · exact isBracket_of_isPart (Or.inl (by simp [Identifier.isPart, halphanum]))
    · decide
    · decide
    · decide
  simp only [Naming.headerFile, brackets_append, brackets_of_isIdentifier hf, hextension]
  rfl

end Config.Accepted

namespace Family

variable {family : Family}

theorem brackets_of_mem_results (h : family.WellNamed) {result : String}
    (hr : result ∈ family.results) : brackets result = [] := by
  rcases mem_results hr with rfl | rfl | hvalue
  · rfl
  · rfl
  · exact brackets_of_isIdentifier (h.result result hvalue)

theorem brackets_fieldType (h : family.WellNamed) {variant : Variant}
    (hv : variant ∈ family.variants) {field : Field} (hf : field ∈ variant.fields) :
    brackets (Naming.fieldType family.basename field.type) = [] := by
  have hsuffix : ∀ {name suffix : String}, isIdentifier name = true → brackets suffix = [] →
      brackets (name ++ suffix) = [] := by
    intro name suffix hname hsuffix
    rw [brackets_append, brackets_of_isIdentifier hname, hsuffix]
    rfl
  have hprimitive : ∀ p : Primitive, brackets (Naming.primitive p) = [] := by
    intro p
    cases p <;> decide
  cases ht : field.type with
  | primitive p => exact hprimitive p
  | token => exact (rfl : brackets tokenName = [])
  | child => exact hsuffix h.basename rfl
  | foreignChild other => exact hsuffix (h.foreign variant hv field hf other ht) rfl
  | children => exact hsuffix h.basename rfl

theorem brackets_dispatchMethod (h : family.WellNamed) {variant : Variant}
    (hv : variant ∈ family.variants) :
    brackets (Naming.dispatchMethod variant.name family.basename) = [] := by
  have hvariant : brackets variant.name = [] := brackets_of_isIdentifier (h.variants variant hv)
  have hbase : brackets family.basename = [] := brackets_of_isIdentifier h.basename
  simp only [Naming.dispatchMethod, brackets_append, hvariant, hbase]
  rfl

theorem unbracketed_node (h : family.WellNamed) {variant : Variant}
    (hv : variant ∈ family.variants) : (family.node variant).Unbracketed := by
  have hname : ∀ field ∈ variant.fields, brackets field.name = [] :=
    fun field hfield => brackets_of_isIdentifier (h.fields variant hv field hfield)
  have hmember : ∀ field ∈ variant.fields, brackets (Naming.member field.name) = [] := by
    intro field hfield
    rw [Naming.member, brackets_append, hname field hfield]
    rfl
  refine ⟨brackets_of_isIdentifier (h.variants variant hv), brackets_of_isIdentifier h.basename,
    ?_, ?_, ?_⟩
  · intro member hmem
    obtain ⟨field, hfield, rfl⟩ := List.mem_map.1 hmem
    exact ⟨brackets_fieldType h hv hfield, hmember field hfield⟩
  · intro parameter hmem
    obtain ⟨field, hfield, rfl⟩ := List.mem_map.1 hmem
    exact ⟨brackets_fieldType h hv hfield, hname field hfield, hmember field hfield⟩
  · intro entry hmem
    obtain ⟨result, hresult, rfl⟩ := List.mem_map.1 hmem
    have hnil := brackets_of_mem_results h hresult
    exact ⟨hnil, Naming.brackets_visitor h.basename hnil, brackets_dispatchMethod h hv⟩

theorem balanced_resultLines (h : family.WellNamed) : Balanced family.resultLines := by
  unfold resultLines
  cases hc : family.contract with
  | effect => exact .nil
  | value result =>
    refine Balanced.cons ?_ balanced_blank
    simp only [text_flat, brackets_append, brackets_of_isIdentifier (h.result result hc)]
    decide

theorem balanced_forwardLines (h : family.WellNamed) : Balanced family.forwardLines := by
  refine Balanced.of_forall ?_
  intro line hline
  obtain ⟨node, hnode, rfl⟩ := List.mem_map.1 hline
  obtain ⟨variant, hvariant, rfl⟩ := List.mem_map.1 hnode
  simp only [text_flat, brackets_append, (unbracketed_node h hvariant).name]
  decide

theorem balanced_baseLines (h : family.WellNamed) : Balanced family.baseLines := by
  have hbase : brackets family.basename = [] := brackets_of_isIdentifier h.basename
  have hopening : brackets ("struct " ++ family.basename ++ " \x7b") = [] ++ ['\x7b'] := by
    simp only [brackets_append, hbase]
    rfl
  have hentries : Balanced (family.results.map family.baseEntryLine) := by
    refine Balanced.of_forall ?_
    intro line hline
    obtain ⟨result, hresult, rfl⟩ := List.mem_map.1 hline
    have hnil := brackets_of_mem_results h hresult
    have hvisitor := Naming.brackets_visitor h.basename hnil
    simp only [baseEntryLine, text_flat, brackets_append, hnil, hvisitor]
    decide
  have hdestructor : Balanced [flat ("virtual ~" ++ family.basename ++ "() = default;")] := by
    refine Balanced.of_line ?_
    simp only [text_flat, brackets_append, hbase]
    decide
  exact Balanced.block _ _ hopening .nil (by decide) (hentries.append hdestructor).indented

theorem balanced_aliasLines (h : family.WellNamed) : Balanced family.aliasLines := by
  have hbase : brackets family.basename = [] := brackets_of_isIdentifier h.basename
  refine Balanced.of_forall ?_
  simp only [aliasLines, Naming.handle, Naming.list, List.forall_mem_cons, text_flat,
    brackets_append, hbase]
  decide

theorem balanced_nodeLines (h : family.WellNamed) : Balanced family.nodeLines := by
  refine Balanced.flatMap ?_
  intro node hnode
  obtain ⟨variant, hvariant, rfl⟩ := List.mem_map.1 hnode
  exact (Node.balanced_lines (unbracketed_node h hvariant)).append balanced_blank

theorem balanced_bodyLines (h : family.WellNamed) : Balanced family.bodyLines := by
  have hnamespace : brackets family.visitor.namespaceName = [] :=
    brackets_of_isPart fun c hc => Or.inl (Naming.isPart_visitorNamespace h.basename c hc)
  have hmethods : ∀ method ∈ family.visitor.methods,
      brackets method.name = [] ∧ brackets method.variant = [] := by
    intro method hmethod
    obtain ⟨variant, hvariant, rfl⟩ := List.mem_map.1 hmethod
    exact ⟨brackets_dispatchMethod h hvariant, (unbracketed_node h hvariant).name⟩
  have hahead := (Visitor.balanced_declarationLines hnamespace).append balanced_blank
  have hforward := (balanced_forwardLines h).append balanced_blank
  have hbase := (balanced_baseLines h).append balanced_blank
  have halias := (balanced_aliasLines h).append balanced_blank
  have hvisitor := (Visitor.balanced_lines hnamespace hmethods).append balanced_blank
  have hbody := ((((((balanced_resultLines h).append hahead).append hforward).append hbase).append
    halias).append hvisitor).append (balanced_nodeLines h)
  simpa [bodyLines] using hbody

variable {config : Config}

theorem balanced_linesBeforeIncludes (family : Family) (config : Config) :
    Balanced (family.linesBeforeIncludes config) := by
  refine Balanced.of_forall ?_
  simp only [linesBeforeIncludes, List.forall_mem_cons, text_flat, brackets_append,
    Naming.brackets_guard]
  decide

theorem balanced_localIncludeLines (h : family.WellNamed) (hc : config.Accepted) :
    Balanced (family.localIncludeLines config) := by
  refine Balanced.of_forall ?_
  intro line hline
  rcases mem_localIncludeLines h hline with rfl | ⟨name, hname, rfl⟩
  · exact .nil
  · simp only [includeLine, text_flat, brackets_append, hc.brackets_headerFile hname]
    decide

theorem balanced_linesAfterIncludes (h : family.WellNamed) (hc : config.Accepted) :
    Balanced (family.linesAfterIncludes config) := by
  have hstandard : Balanced standardIncludeLines := by
    refine Balanced.of_forall ?_
    decide
  have hfirst : brackets ("namespace " ++ config.namespaceName ++ " \x7b") = [] ++ ['\x7b'] := by
    simp only [brackets_append, hc.brackets_namespaceName]
    rfl
  have hlast : brackets ("\x7d // namespace " ++ config.namespaceName) = ['\x7d'] := by
    rw [brackets_append, hc.brackets_namespaceName]
    rfl
  have hnamespace := Balanced.block (flat ("namespace " ++ config.namespaceName ++ " \x7b"))
    (flat ("\x7d // namespace " ++ config.namespaceName)) hfirst .nil hlast
    (balanced_blank.append (balanced_bodyLines h))
  have hend : Balanced [flat ("#endif // " ++ Naming.guard config family.basename)] := by
    refine Balanced.of_line ?_
    rw [text_flat, brackets_append, Naming.brackets_guard]
    decide
  have hlines := ((hstandard.append balanced_blank).append hnamespace).append
    (balanced_blank.append hend)
  simpa [linesAfterIncludes] using hlines

/-- The brackets of a header are nested. -/
theorem nested_contents (h : family.WellNamed) (hc : config.Accepted) :
    Nested (brackets (family.header config).contents) := by
  rw [header, brackets_renderAll, headerLines_eq]
  exact ((balanced_linesBeforeIncludes family config).append
    (balanced_localIncludeLines h hc)).append (balanced_linesAfterIncludes h hc)

end Family

end TreeHeaders
