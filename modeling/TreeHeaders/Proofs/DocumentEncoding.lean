import TreeHeaders.Document
import TreeHeaders.Proofs.JsonReading

set_option autoImplicit false

/-!
# Documents that encode declarations

The texts that stand for a list of declarations, said without the reader: `Document.Encodes`.
Every record is an object that lists its keys in any order, and a member may be left out where
the declaration has its default. Reading such a text gives back exactly the declarations.
-/

namespace TreeHeaders.Document

open Json

/-! ## Encodings -/

/-- A field is an array of its type and its name. -/
def FieldValue (v : Value) (d : FieldDeclaration) : Prop :=
  v = .array [.string d.type, .string d.name]

/-- The members of a variant. -/
inductive VariantMember (d : VariantDeclaration) : VariantKey → String × Value → Prop where
  | name : VariantMember d .name ("name", .string d.name)
  | fields {items : List Value} (h : List.Forall₂ FieldValue items d.fields) :
    VariantMember d .fields ("fields", .array items)

/-- A variant is an object with its name, and with its fields unless there are none. -/
def VariantValue (v : Value) (d : VariantDeclaration) : Prop :=
  ∃ keys, v.IsObject (VariantMember d) keys ∧ .name ∈ keys ∧ (.fields ∉ keys → d.fields = [])

/-- The members of a family. -/
inductive FamilyMember (d : FamilyDeclaration) : FamilyKey → String × Value → Prop where
  | basename : FamilyMember d .basename ("basename", .string d.basename)
  | result : FamilyMember d .result ("result", d.result.elim .null .string)
  | render : FamilyMember d .render ("render", .boolean d.render)
  | variants {items : List Value} (h : List.Forall₂ VariantValue items d.variants) :
    FamilyMember d .variants ("variants", .array items)

/-- A family is an object with its basename. The other members may be left out at
their defaults. -/
def FamilyValue (v : Value) (d : FamilyDeclaration) : Prop :=
  ∃ keys, v.IsObject (FamilyMember d) keys ∧ .basename ∈ keys ∧
    (.result ∉ keys → d.result = none) ∧ (.render ∉ keys → d.render = false) ∧
    (.variants ∉ keys → d.variants = [])

/-- The only member of a document. -/
inductive DocumentMember (ds : List FamilyDeclaration) : DocumentKey → String × Value → Prop where
  | families {items : List Value} (h : List.Forall₂ FamilyValue items ds) :
    DocumentMember ds .families ("families", .array items)

/-- A document is an object with the families. -/
def DocumentValue (v : Value) (ds : List FamilyDeclaration) : Prop :=
  ∃ keys, v.IsObject (DocumentMember ds) keys ∧ .families ∈ keys

/-- The text is a document for the declarations. -/
def Encodes (text : String) (ds : List FamilyDeclaration) : Prop :=
  ∃ v, DocumentValue v ds ∧ WrittenDocument v text.toList

/-! ## Reading -/

theorem complete_readField : Complete FieldValue readField := by
  intro v d ws text hv hws htext p rest
  obtain ⟨q, hq⟩ := complete_readPair complete_readString complete_readString
    (x := (d.type, d.name)) ⟨_, _, hv, rfl, rfl⟩ hws htext p rest
  exact ⟨q, by simp [readField, hq, bind, Except.bind]⟩

/-- The variant as far as its members have been read. -/
def partialVariant (d : VariantDeclaration) (seen : List VariantKey) : VariantDeclaration where
  name := if .name ∈ seen then d.name else ""
  fields := if .fields ∈ seen then d.fields else []

theorem builds_variantMembers (d : VariantDeclaration) :
    variantMembers.Builds (VariantMember d) (partialVariant d) where
  lookup_eq := by rintro _ _ (_ | _) <;> rfl
  complete_read := by
    rintro k seen v _ ws text ⟨⟨key, hk⟩, rfl⟩ hws htext p rest
    cases hk with
    | name =>
      obtain ⟨q, hq⟩ := complete_readString rfl hws htext p rest
      exact ⟨q, by simp [variantMembers, hq, bind, Except.bind, partialVariant]⟩
    | fields h =>
      obtain ⟨q, hq⟩ := complete_readArray complete_readField ⟨_, rfl, h⟩ hws htext p rest
      exact ⟨q, by simp [variantMembers, hq, bind, Except.bind, partialVariant]⟩

theorem complete_readVariant : Complete VariantValue readVariant := by
  rintro v d ws text ⟨keys, hv, hname, hfields⟩ hws htext p rest
  obtain ⟨q, hq⟩ := exists_readRecord (builds_variantMembers d) hv ("name", .name) hname
    expectedVariant readVariantElements hws htext p rest
  have hd : partialVariant d keys = d := by
    simp only [partialVariant, if_pos hname, ite_eq_left_iff.2 fun h => (hfields h).symm]
  rw [hd] at hq
  exact ⟨q, hq⟩

/-- The family as far as its members have been read. -/
def partialFamily (d : FamilyDeclaration) (seen : List FamilyKey) : FamilyDeclaration where
  basename := if .basename ∈ seen then d.basename else ""
  result := if .result ∈ seen then d.result else none
  render := if .render ∈ seen then d.render else false
  variants := if .variants ∈ seen then d.variants else []

theorem builds_familyMembers (d : FamilyDeclaration) :
    familyMembers.Builds (FamilyMember d) (partialFamily d) where
  lookup_eq := by rintro _ _ (_ | _ | _ | _) <;> rfl
  complete_read := by
    rintro k seen v _ ws text ⟨⟨key, hk⟩, rfl⟩ hws htext p rest
    cases hk with
    | basename =>
      obtain ⟨q, hq⟩ := complete_readString rfl hws htext p rest
      exact ⟨q, by simp [familyMembers, hq, bind, Except.bind, partialFamily]⟩
    | result =>
      obtain ⟨q, hq⟩ := complete_readStringOrNull rfl hws htext p rest
      exact ⟨q, by simp [familyMembers, hq, bind, Except.bind, partialFamily]⟩
    | render =>
      obtain ⟨q, hq⟩ := complete_readBoolean rfl hws htext p rest
      exact ⟨q, by simp [familyMembers, hq, bind, Except.bind, partialFamily]⟩
    | variants h =>
      obtain ⟨q, hq⟩ := complete_readArray complete_readVariant ⟨_, rfl, h⟩ hws htext p rest
      exact ⟨q, by simp [familyMembers, hq, bind, Except.bind, partialFamily]⟩

theorem complete_readFamily : Complete FamilyValue readFamily := by
  rintro v d ws text ⟨keys, hv, hbasename, hresult, hrender, hvariants⟩ hws htext p rest
  obtain ⟨q, hq⟩ := exists_readRecord (builds_familyMembers d) hv ("basename", .basename)
    hbasename expectedFamily readFamilyElements hws htext p rest
  have hd : partialFamily d keys = d := by
    simp only [partialFamily, if_pos hbasename, ite_eq_left_iff.2 fun h => (hresult h).symm,
      ite_eq_left_iff.2 fun h => (hrender h).symm, ite_eq_left_iff.2 fun h => (hvariants h).symm]
  rw [hd] at hq
  exact ⟨q, hq⟩

theorem builds_documentMembers (ds : List FamilyDeclaration) :
    documentMembers.Builds (DocumentMember ds) fun seen => if .families ∈ seen then ds else [] where
  lookup_eq := by rintro _ _ ⟨⟩; rfl
  complete_read := by
    rintro k seen v _ ws text ⟨⟨key, hk⟩, rfl⟩ hws htext p rest
    cases hk with
    | families h =>
      obtain ⟨q, hq⟩ := complete_readArray complete_readFamily ⟨_, rfl, h⟩ hws htext p rest
      exact ⟨q, by simp [documentMembers, hq]⟩

theorem complete_readDocument : Complete DocumentValue readDocument := by
  rintro v ds ws text ⟨keys, hv, hfamilies⟩ hws htext p rest
  obtain ⟨q, hq⟩ := exists_readRecord (builds_documentMembers ds) hv ("families", .families)
    hfamilies expectedDocument (requiredElement expectedDocument 0 (readArray readFamily)) hws htext
    p rest
  rw [if_pos hfamilies] at hq
  exact ⟨q, hq⟩

theorem Encodes.parse_eq {text : String} {ds : List FamilyDeclaration} (h : Encodes text ds) :
    parse text = .ok ds := by
  obtain ⟨v, hv, htext⟩ := h
  obtain ⟨c, hc, hfinish⟩ := complete_readDocument.exists_document hv htext .start
  simp only [parse, Cursor.start, hc, hfinish, bind, Except.bind]

/-! ## Writing -/

/-- A list can be written as an array if every element can be written. -/
theorem exists_array {α : Type} {R : Value → α → Prop} {xs : List α}
    (h : ∀ x ∈ xs, ∃ v, R v x ∧ ∃ text, Written v text) :
    ∃ items, List.Forall₂ R items xs ∧ ∃ text, Written (.array items) text := by
  have hitems : ∃ items, List.Forall₂ R items xs ∧ ∀ v ∈ items, ∃ text, Written v text := by
    induction xs with
    | nil => exact ⟨[], .nil, by simp⟩
    | cons x xs ih =>
      obtain ⟨⟨v, hv, hwritten⟩, hxs⟩ := List.forall_mem_cons.1 h
      obtain ⟨items, hitems, hall⟩ := ih hxs
      exact ⟨v :: items, .cons hv hitems, List.forall_mem_cons.2 ⟨hwritten, hall⟩⟩
  obtain ⟨items, hitems, hall⟩ := hitems
  exact ⟨items, hitems, Written.exists_array hall⟩

theorem exists_string (s : String) : ∃ text, Written (.string s) text :=
  ⟨_, .string (quoted_written s)⟩

theorem exists_fieldValue (d : FieldDeclaration) :
    ∃ v, FieldValue v d ∧ ∃ text, Written v text := by
  refine ⟨_, rfl, Written.exists_array ?_⟩
  simp only [List.forall_mem_cons, List.not_mem_nil, IsEmpty.forall_iff, implies_true, and_true]
  exact ⟨exists_string d.type, exists_string d.name⟩

theorem exists_variantValue (d : VariantDeclaration) :
    ∃ v, VariantValue v d ∧ ∃ text, Written v text := by
  obtain ⟨items, hitems, hwritten⟩ := exists_array fun field (_ : field ∈ d.fields) =>
    exists_fieldValue field
  refine ⟨.object [("name", .string d.name), ("fields", .array items)],
    ⟨[.name, .fields], ⟨_, rfl, by decide, ?_⟩, by decide, fun h => absurd h (by decide)⟩, ?_⟩
  · exact .cons .name (.cons (.fields hitems) .nil)
  · refine Written.exists_object ?_
    simp only [List.forall_mem_cons, List.not_mem_nil, IsEmpty.forall_iff, implies_true, and_true]
    exact ⟨exists_string d.name, hwritten⟩

theorem exists_familyValue (d : FamilyDeclaration) :
    ∃ v, FamilyValue v d ∧ ∃ text, Written v text := by
  obtain ⟨items, hitems, hwritten⟩ := exists_array fun variant (_ : variant ∈ d.variants) =>
    exists_variantValue variant
  have hresult : ∃ text, Written (d.result.elim .null .string) text := by
    cases d.result with
    | none => exact ⟨_, .null⟩
    | some result => exact exists_string result
  have hrender : ∃ text, Written (.boolean d.render) text := by
    cases d.render with
    | false => exact ⟨_, .falseWord⟩
    | true => exact ⟨_, .trueWord⟩
  refine ⟨.object [("basename", .string d.basename), ("result", d.result.elim .null .string),
    ("render", .boolean d.render), ("variants", .array items)],
    ⟨[.basename, .result, .render, .variants], ⟨_, rfl, by decide, ?_⟩, by decide,
      fun h => absurd h (by decide), fun h => absurd h (by decide),
      fun h => absurd h (by decide)⟩, ?_⟩
  · exact .cons .basename (.cons .result (.cons .render (.cons (.variants hitems) .nil)))
  · refine Written.exists_object ?_
    simp only [List.forall_mem_cons, List.not_mem_nil, IsEmpty.forall_iff, implies_true, and_true]
    exact ⟨exists_string d.basename, hresult, hrender, hwritten⟩

theorem exists_encodes (ds : List FamilyDeclaration) : ∃ text, Encodes text ds := by
  obtain ⟨items, hitems, hwritten⟩ := exists_array fun family (_ : family ∈ ds) =>
    exists_familyValue family
  have hvalue : DocumentValue (.object [("families", .array items)]) ds :=
    ⟨[.families], ⟨_, rfl, by decide, .cons (.families hitems) .nil⟩, by decide⟩
  obtain ⟨text, htext⟩ : ∃ text, Written (.object [("families", .array items)]) text := by
    refine Written.exists_object ?_
    simp only [List.mem_singleton, forall_eq]
    exact hwritten
  refine ⟨String.ofList text, _, hvalue, [], text, [], spaces_nil, htext, spaces_nil, ?_⟩
  rw [String.toList_ofList, List.append_nil, List.nil_append]

/-! ## Documents and catalogues -/

/-- Every list of declarations has a document. Each of its documents, whatever the order of the
keys, the blanks and the escapes and whichever defaults are left out, is read as exactly this
list, so it gives the same catalogue or the same error as the declarations themselves. -/
theorem documents_decode (ds : List FamilyDeclaration) :
    (∃ text, Encodes text ds) ∧
      ∀ text, Encodes text ds →
        parse text = .ok ds ∧ Catalogue.ofDocument text = Catalogue.ofDeclarations ds := by
  refine ⟨exists_encodes ds, fun text htext => ⟨htext.parse_eq, ?_⟩⟩
  rw [Catalogue.ofDocument, htext.parse_eq]

/-- One family, which gives no result, with one variant. -/
def smileys : List FamilyDeclaration :=
  [{ basename := "Expr", variants := [{ name := "😀", fields := [⟨"Token", "tag"⟩] }] }]

/-- A document for it, with the keys from last to first, with blanks, with a name in code units,
and with a result that is null. -/
def smileysText : String :=
  "\n\x7b\"families\" : [ \x7b\"variants\":[\x7b\"fields\":[[\"Token\" ,\"tag\"]]," ++
    "\"name\":\"\\ud83d\\ude00\"\x7d],\"result\":null,\"basename\":\"Expr\"\x7d]\x7d "

/-- The value that the document holds. -/
def smileysValue : Value :=
  .object [("families", .array [.object [
    ("variants", .array [.object [
      ("fields", .array [.array [.string "Token", .string "tag"]]),
      ("name", .string "😀")]]),
    ("result", .null),
    ("basename", .string "Expr")]])]

theorem smileysValue_documentValue : DocumentValue smileysValue smileys := by
  refine ⟨[.families], ⟨_, rfl, by decide, .cons (.families (.cons ?family .nil)) .nil⟩, by decide⟩
  refine ⟨[.variants, .result, .basename], ⟨_, rfl, by decide,
    .cons (.variants (.cons ?variant .nil)) (.cons .result (.cons .basename .nil))⟩, by decide,
    fun h => absurd h (by decide), fun _ => rfl, fun h => absurd h (by decide)⟩
  exact ⟨[.fields, .name], ⟨_, rfl, by decide,
    .cons (.fields (.cons rfl .nil)) (.cons .name .nil)⟩, by decide, fun h => absurd h (by decide)⟩

theorem smileysText_written : WrittenDocument smileysValue smileysText.toList := by
  have hblank : Spaces [' '] := by simp [Spaces]
  have hbreak : Spaces ['\n'] := by simp [Spaces]
  have hleading := unitText_written (n := 0xd83d) (by decide)
  have htrailing := unitText_written (n := 0xde00) (by decide)
  have hchar := @CharText.units '😀' [_, _] (.cons hleading (.cons htrailing .nil))
  have hname := @StringText.mk "😀" [_] (.cons hchar .nil)
  have hfield := Items.cons spaces_nil (Written.string (quoted_written "Token"))
    (.cons hblank spaces_nil (.string (quoted_written "tag")) (.nil spaces_nil))
  have hfields := Items.cons spaces_nil (Written.array hfield) (.nil spaces_nil)
  have hvariant := Items.cons spaces_nil
    (MemberText.mk (quoted_written "fields") spaces_nil spaces_nil (Written.array hfields))
    (.cons spaces_nil spaces_nil
      (MemberText.mk (quoted_written "name") spaces_nil spaces_nil (.string hname))
      (.nil spaces_nil))
  have hvariants := Items.cons spaces_nil (Written.object hvariant) (.nil spaces_nil)
  have hfamily := Items.cons spaces_nil
    (MemberText.mk (quoted_written "variants") spaces_nil spaces_nil (Written.array hvariants))
    (.cons spaces_nil spaces_nil
      (MemberText.mk (quoted_written "result") spaces_nil spaces_nil .null)
      (.cons spaces_nil spaces_nil
        (MemberText.mk (quoted_written "basename") spaces_nil spaces_nil
          (.string (quoted_written "Expr")))
        (.nil spaces_nil)))
  have hfamilies := Items.cons hblank (Written.object hfamily) (.nil spaces_nil)
  have hdocument := Items.cons spaces_nil
    (MemberText.mk (quoted_written "families") hblank hblank (Written.array hfamilies))
    (.nil spaces_nil)
  exact ⟨['\n'], _, [' '], hbreak, Written.object hdocument, hblank, by decide +kernel⟩

theorem smileysText_decodes :
    Encodes smileysText smileys ∧ parse smileysText = .ok smileys ∧
      Catalogue.ofDocument smileysText = Catalogue.ofDeclarations smileys :=
  have hencodes : Encodes smileysText smileys :=
    ⟨smileysValue, smileysValue_documentValue, smileysText_written⟩
  ⟨hencodes, (documents_decode smileys).2 smileysText hencodes⟩

end TreeHeaders.Document
