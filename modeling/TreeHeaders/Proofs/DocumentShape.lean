import TreeHeaders.Document
import TreeHeaders.Proofs.JsonShape

set_option autoImplicit false

/-!
# Documents that are refused

Reading a document is strict. A text of a value is a document exactly if the value has the shape
of one, with known keys only, none of them twice, no required key left out, and a value of the
right type under each key; the text of any other value is malformed
(`Document.decoded_iff_isDocument`).

A record may also be written as an array of its members. Such values are left aside here.
-/

namespace TreeHeaders

namespace Json.Value

/-- The items of the value if it is an array. -/
def items : Value → List Value
  | .array items => items
  | _ => []

/-- The items of all arrays that stand under the key if the value is an object. -/
def itemsUnder (key : String) : Value → List Value
  | .object members => members.flatMap fun member => if member.1 = key then member.2.items else []
  | _ => []

theorem mem_itemsUnder {key : String} {members : List (String × Value)} {w v : Value}
    (hmember : (key, w) ∈ members) (hv : v ∈ w.items) : v ∈ itemsUnder key (.object members) := by
  refine List.mem_flatMap.2 ⟨(key, w), hmember, ?_⟩
  rw [if_pos rfl]
  exact hv

end Json.Value

namespace Document

open Json

/-! ## Shapes -/

/-- A field is an array of two strings. -/
def IsField (v : Value) : Prop :=
  ∃ type name, v = .array [.string type, .string name]

/-- A variant has a name, and may have an array of fields. -/
def IsVariant : Value → Prop :=
  Value.IsRecord [("name", Value.IsString), ("fields", Value.IsArrayOf IsField)] "name"

/-- A family has a basename, and may have a result, which is a string or null, a choice whether
it is rendered, and an array of variants. -/
def IsFamily : Value → Prop :=
  Value.IsRecord
    [("basename", Value.IsString), ("result", Value.IsStringOrNull), ("render", Value.IsBoolean),
      ("variants", Value.IsArrayOf IsVariant)]
    "basename"

/-- A document has an array of families and nothing else. -/
def IsDocument : Value → Prop :=
  Value.IsRecord [("families", Value.IsArrayOf IsFamily)] "families"

/-- Neither the family nor one of its variants is written as an array. -/
def FamilyNotAsArray (v : Value) : Prop :=
  ¬ v.IsArray ∧ ∀ variant ∈ v.itemsUnder "variants", ¬ variant.IsArray

/-- No record is written as an array: neither the document, nor one of its families, nor
a variant of a family. -/
def NoneAsArray (v : Value) : Prop :=
  ¬ v.IsArray ∧ ∀ family ∈ v.itemsUnder "families", FamilyNotAsArray family

/-! ## Reading -/

theorem decides_readField : Decides (fun _ => True) IsField readField := by
  intro v ws text _ hws htext p rest
  have hpair := decides_readPair decides_readString decides_readString trivial hws htext p rest
  refine (hpair.map (fun pair => FieldDeclaration.mk pair.1 pair.2) fun _ _ => rfl).congr ?_
  constructor
  · rintro ⟨_, _, rfl, ⟨type, rfl⟩, ⟨name, rfl⟩⟩
    exact ⟨type, name, rfl⟩
  · rintro ⟨type, name, rfl⟩
    exact ⟨_, _, rfl, ⟨type, rfl⟩, ⟨name, rfl⟩⟩

/-- What is expected of the members of a variant. -/
def variantShape : VariantKey → Value → Prop
  | .name => Value.IsString
  | .fields => Value.IsArrayOf IsField

theorem keyed_variantMembers : variantMembers.Keyed :=
  ⟨by decide, by decide⟩

theorem decides_variantMembers (k : VariantKey) (d : VariantDeclaration) :
    Decides (fun _ => True) (variantShape k) (variantMembers.read k d) := by
  intro v ws text _ hws htext p rest
  cases k with
  | name =>
    have hname := decides_readString trivial hws htext p rest
    exact hname.map (fun name => { d with name }) fun _ _ => rfl
  | fields =>
    have hfields := decides_readArray decides_readField (fun _ _ _ _ => trivial) hws htext p rest
    exact hfields.map (fun fields => { d with fields }) fun _ _ => rfl

theorem decides_readVariant : Decides (fun v => ¬ v.IsArray) IsVariant readVariant := by
  have hrequired : ("name", VariantKey.name) ∈ variantMembers.keys := by decide
  have hrecord := decides_readRecord decides_variantMembers keyed_variantMembers hrequired
    expectedVariant { name := "" } readVariantElements
  exact hrecord.mono fun v hv => ⟨hv, fun _ _ _ _ _ _ => trivial⟩

/-- What is expected of the members of a family. -/
def familyShape : FamilyKey → Value → Prop
  | .basename => Value.IsString
  | .result => Value.IsStringOrNull
  | .render => Value.IsBoolean
  | .variants => Value.IsArrayOf IsVariant

theorem keyed_familyMembers : familyMembers.Keyed :=
  ⟨by decide, by decide⟩

theorem decides_familyMembers (k : FamilyKey) (d : FamilyDeclaration) :
    Decides (fun v => k = .variants → ∀ variant ∈ v.items, ¬ variant.IsArray) (familyShape k)
      (familyMembers.read k d) := by
  intro v ws text hv hws htext p rest
  cases k with
  | basename =>
    have hbasename := decides_readString trivial hws htext p rest
    exact hbasename.map (fun basename => { d with basename }) fun _ _ => rfl
  | result =>
    have hresult := decides_readStringOrNull trivial hws htext p rest
    exact hresult.map (fun result => { d with result }) fun _ _ => rfl
  | render =>
    have hrender := decides_readBoolean trivial hws htext p rest
    exact hrender.map (fun render => { d with render }) fun _ _ => rfl
  | variants =>
    have hitems : ∀ items, v = .array items → ∀ item ∈ items, ¬ item.IsArray := by
      rintro items rfl
      exact hv rfl
    have hvariants := decides_readArray decides_readVariant hitems hws htext p rest
    exact hvariants.map (fun variants => { d with variants }) fun _ _ => rfl

theorem decides_readFamily : Decides FamilyNotAsArray IsFamily readFamily := by
  have hrequired : ("basename", FamilyKey.basename) ∈ familyMembers.keys := by decide
  have hrecord := decides_readRecord decides_familyMembers keyed_familyMembers hrequired
    expectedFamily { basename := "" } readFamilyElements
  refine hrecord.mono ?_
  rintro v ⟨harray, hvariants⟩
  refine ⟨harray, ?_⟩
  rintro ms rfl ⟨key, w⟩ hm k hk rfl variant hvariant
  have hkey : key = "variants" := by simpa [familyMembers] using hk
  subst hkey
  exact hvariants variant (Value.mem_itemsUnder hm hvariant)

theorem keyed_documentMembers : documentMembers.Keyed :=
  ⟨by decide, by decide⟩

theorem decides_documentMembers (k : DocumentKey) (ds : List FamilyDeclaration) :
    Decides (fun v => ∀ family ∈ v.items, FamilyNotAsArray family) (Value.IsArrayOf IsFamily)
      (documentMembers.read k ds) := by
  intro v ws text hv hws htext p rest
  have hitems : ∀ items, v = .array items → ∀ item ∈ items, FamilyNotAsArray item := by
    rintro items rfl
    exact hv
  exact decides_readArray decides_readFamily hitems hws htext p rest

theorem decides_readDocument : Decides NoneAsArray IsDocument readDocument := by
  have hrequired : ("families", DocumentKey.families) ∈ documentMembers.keys := by decide
  have hrecord := decides_readRecord decides_documentMembers keyed_documentMembers hrequired
    expectedDocument [] (requiredElement expectedDocument 0 (readArray readFamily))
  refine hrecord.mono ?_
  rintro v ⟨harray, hfamilies⟩
  refine ⟨harray, ?_⟩
  rintro ms rfl ⟨key, w⟩ hm k hk family hfamily
  have hkey : key = "families" := by
    have hpair : key = "families" ∧ k = .families := by simpa [documentMembers] using hk
    exact hpair.1
  subst hkey
  exact hfamilies family (Value.mem_itemsUnder hm hfamily)

/-! ## Malformed documents -/

/-- The text of a value is read if the value is a document, and otherwise it has a fault. -/
theorem parse_cases {text : String} {v : Value} (htext : WrittenDocument v text.toList)
    (hv : NoneAsArray v) :
    IsDocument v ∧ (∃ ds, parse text = .ok ds) ∨
      ¬ IsDocument v ∧ ∃ m, parse text = .error m := by
  obtain ⟨ws, inner, ws', hws, hinner, hws', heq⟩ := htext
  unfold parse
  simp only [Cursor.start, heq]
  rcases decides_readDocument hv hws hinner .start ws' with ⟨hdoc, ds, q, hq⟩ | ⟨hdoc, m, hm⟩
  · refine Or.inl ⟨hdoc, ds, ?_⟩
    simp only [hq, bind, Except.bind, finish_spaces hws' q]
  · refine Or.inr ⟨hdoc, m, ?_⟩
    simp only [hm, bind, Except.bind]

/-- A document is malformed exactly if its text has a fault; declarations are
never malformed. -/
theorem ofDocument_malformed_iff {text : String} :
    (∃ m, Catalogue.ofDocument text = .error (.malformed m)) ↔ ∃ m, parse text = .error m := by
  unfold Catalogue.ofDocument
  cases parse text with
  | error m => simp
  | ok ds =>
    simp only [Catalogue.ofDeclarations, reduceCtorEq, exists_false, iff_false, not_exists]
    intro m
    cases Catalogue.load ds with
    | error e => simp [Except.mapError]
    | ok c => simp [Except.mapError]

/-- The text of a value in which no record is written as an array is decoded exactly if
the value is a document: at each level all keys are known, none comes twice, the
required one is there, and each value has the type that its key asks for. In every other
case the text is malformed. -/
theorem decoded_iff_isDocument {text : String} {v : Value} (htext : WrittenDocument v text.toList)
    (hv : NoneAsArray v) :
    ((∃ ds, parse text = .ok ds) ↔ IsDocument v) ∧
      ((∃ m, Catalogue.ofDocument text = .error (.malformed m)) ↔ ¬ IsDocument v) := by
  rw [ofDocument_malformed_iff]
  rcases parse_cases htext hv with ⟨hdoc, ds, hds⟩ | ⟨hdoc, m, hm⟩
  · exact ⟨iff_of_true ⟨ds, hds⟩ hdoc, iff_of_false (by simp [hds]) (not_not_intro hdoc)⟩
  · exact ⟨iff_of_false (by simp [hm]) hdoc, iff_of_true ⟨m, hm⟩ hdoc⟩

/-- A family with one variant, which has two names. -/
def twoNames : Value :=
  .object [("families", .array [.object [("basename", .string "Expr"),
    ("variants", .array [.object [("name", .string "Nil"), ("name", .string "Null")]])]])]

/-- A text of it, in which the key of the second name is spelt with an escape. -/
def twoNamesText : String :=
  "\x7b\"families\":[\x7b\"basename\":\"Expr\",\"variants\":[\x7b\"name\":\"Nil\"," ++
    "\"\\u006eame\":\"Null\"\x7d]\x7d]\x7d"

theorem twoNamesText_written : WrittenDocument twoNames twoNamesText.toList := by
  have hn : CharText 'n' (unitText 0x6e) := by
    have hunit := unitText_written (n := 0x6e) (by decide)
    simpa using @CharText.units 'n' [unitText 0x6e] (.cons hunit .nil)
  have hchars : List.Forall₂ CharText ['a', 'm', 'e'] (['a', 'm', 'e'].map charText) := by
    rw [List.forall₂_map_right_iff, List.forall₂_same]
    exact fun c _ => charText_written c
  have hname := @StringText.mk "name" (unitText 0x6e :: ['a', 'm', 'e'].map charText)
    (.cons hn hchars)
  have hvariant := Items.cons spaces_nil
    (MemberText.mk (quoted_written "name") spaces_nil spaces_nil
      (Written.string (quoted_written "Nil")))
    (.cons spaces_nil spaces_nil
      (MemberText.mk hname spaces_nil spaces_nil (.string (quoted_written "Null")))
      (.nil spaces_nil))
  have hvariants := Items.cons spaces_nil (Written.object hvariant) (.nil spaces_nil)
  have hfamily := Items.cons spaces_nil
    (MemberText.mk (quoted_written "basename") spaces_nil spaces_nil
      (Written.string (quoted_written "Expr")))
    (.cons spaces_nil spaces_nil
      (MemberText.mk (quoted_written "variants") spaces_nil spaces_nil (.array hvariants))
      (.nil spaces_nil))
  have hfamilies := Items.cons spaces_nil (Written.object hfamily) (.nil spaces_nil)
  have hdocument := Items.cons spaces_nil
    (MemberText.mk (quoted_written "families") spaces_nil spaces_nil (Written.array hfamilies))
    (.nil spaces_nil)
  exact ⟨[], _, [], spaces_nil, Written.object hdocument, spaces_nil, by decide +kernel⟩

/-- A key that comes twice is refused, also inside of a variant and where it is
spelt in two ways. -/
theorem twoNamesText_malformed :
    WrittenDocument twoNames twoNamesText.toList ∧ NoneAsArray twoNames ∧ ¬ IsDocument twoNames ∧
      ∃ m, Catalogue.ofDocument twoNamesText = .error (.malformed m) := by
  have hrecords : NoneAsArray twoNames := by
    simp [NoneAsArray, FamilyNotAsArray, twoNames, Value.IsArray, Value.itemsUnder, Value.items]
  have hvariant : ¬ IsVariant (.object [("name", .string "Nil"), ("name", .string "Null")]) := by
    simp [IsVariant, Value.IsRecord]
  have hfamily : ¬ IsFamily (.object [("basename", .string "Expr"),
      ("variants", .array [.object [("name", .string "Nil"), ("name", .string "Null")]])]) := by
    rintro ⟨_, heq, hall, -⟩
    obtain rfl := Value.object.inj heq
    obtain ⟨P, hP, hvariants⟩ := hall _ (List.mem_cons_of_mem _ List.mem_cons_self)
    obtain rfl : P = Value.IsArrayOf IsVariant := by simpa using hP
    simp [Value.IsArrayOf, hvariant] at hvariants
  have hdoc : ¬ IsDocument twoNames := by
    simp [IsDocument, Value.IsRecord, Value.IsArrayOf, twoNames, hfamily]
  have hdecoded := decoded_iff_isDocument twoNamesText_written hrecords
  exact ⟨twoNamesText_written, hrecords, hdoc, hdecoded.2.2 hdoc⟩

end Document

end TreeHeaders
