import TreeHeaders.Proofs.JsonReading
import Mathlib.Data.List.Nodup

set_option autoImplicit false

/-!
# Values of another shape are refused

A reader reads the texts of the values that have its shape and fails on the texts of all others:
`Decides`. A reader of an array or of an object decides a shape as soon as the readers of its
parts do. Which fault is reported, and where, plays no part here.

Records may also be written as arrays. Nothing is said about those, so every statement comes
with the values that are in question.
-/

namespace TreeHeaders.Json

/-! ## Shapes -/

namespace Value

/-- The value is a string. -/
def IsString (v : Value) : Prop :=
  ∃ s, v = .string s

/-- The value is a string or null. -/
def IsStringOrNull (v : Value) : Prop :=
  v = .null ∨ v.IsString

/-- The value is true or false. -/
def IsBoolean (v : Value) : Prop :=
  ∃ b, v = .boolean b

/-- The value is an array. -/
def IsArray (v : Value) : Prop :=
  ∃ items, v = .array items

/-- The value is an array, and all of its items have the shape. -/
def IsArrayOf (P : Value → Prop) (v : Value) : Prop :=
  ∃ items, v = .array items ∧ ∀ item ∈ items, P item

/-- The value is an object with known keys only, none of them twice and the required one among
them, and what stands under a key has the shape that is known for it. -/
def IsRecord (known : List (String × (Value → Prop))) (required : String) (v : Value) : Prop :=
  ∃ members, v = .object members ∧
    (∀ member ∈ members, ∃ P, (member.1, P) ∈ known ∧ P member.2) ∧
    (members.map (·.1)).Nodup ∧ required ∈ members.map (·.1)

end Value

/-! ## Results -/

/-- If the value is accepted, the result is a reading of it that leaves the rest, and
otherwise it is a fault. -/
def Settled {α : Type} (accepted : Prop) (rest : List Char)
    (result : Except Malformation (α × Cursor)) : Prop :=
  accepted ∧ (∃ x q, result = .ok (x, ⟨q, rest⟩)) ∨ ¬ accepted ∧ ∃ m, result = .error m

namespace Settled

variable {α β : Type} {accepted also : Prop} {rest mid : List Char}
  {result : Except Malformation (α × Cursor)}

theorem congr (h : Settled accepted rest result) (hiff : accepted ↔ also) :
    Settled also rest result := by
  rwa [Settled, ← hiff]

theorem of_ok (h : accepted) (x : α) (q : Position) :
    Settled accepted rest (.ok (x, ⟨q, rest⟩)) :=
  Or.inl ⟨h, x, q, rfl⟩

theorem of_error (h : ¬ accepted) {m : Malformation} (hresult : result = .error m) :
    Settled accepted rest result :=
  Or.inr ⟨h, m, hresult⟩

/-- What comes after a reading is only looked at if that is one. -/
theorem bind (h : Settled accepted mid result)
    {next : α × Cursor → Except Malformation (β × Cursor)}
    (hnext : ∀ x q, Settled also rest (next (x, ⟨q, mid⟩))) :
    Settled (accepted ∧ also) rest (result >>= next) := by
  rcases h with ⟨ha, x, q, rfl⟩ | ⟨ha, m, rfl⟩
  · exact (hnext x q).congr (and_iff_right ha).symm
  · exact of_error (fun hboth => ha hboth.1) rfl

/-- A reading is turned into another one. -/
theorem map (h : Settled accepted rest result)
    {next : α × Cursor → Except Malformation (β × Cursor)} (f : α → β)
    (hnext : ∀ x c, next (x, c) = .ok (f x, c)) : Settled accepted rest (result >>= next) := by
  have hmapped : ∀ x q, Settled True rest (next (x, ⟨q, rest⟩)) := by
    intro x q
    rw [hnext]
    exact of_ok trivial (f x) q
  exact (h.bind hmapped).congr (and_iff_left trivial)

end Settled

/-- For the values in question, the step reads the texts of those that have the shape, whatever
comes before and after them, and fails on the texts of all others. -/
def Decides {α : Type} (D P : Value → Prop) (step : Step α) : Prop :=
  ∀ ⦃v : Value⦄ ⦃ws text : List Char⦄, D v → Spaces ws → Written v text →
    ∀ (p : Position) (rest : List Char), Settled (P v) rest (step ⟨p, ws ++ (text ++ rest)⟩)

theorem Decides.mono {α : Type} {D D' P : Value → Prop} {step : Step α} (h : Decides D P step)
    (hD : ∀ v, D' v → D v) : Decides D' P step := by
  intro v ws text hv hws htext p rest
  exact h (hD v hv) hws htext p rest

/-- A reader for a shape decides it if it refuses all other values. -/
theorem Complete.decides {α : Type} {R : Value → α → Prop} {D P : Value → Prop} {step : Step α}
    (h : Complete R step) (hP : ∀ v, P v → ∃ x, R v x)
    (hrefuses : ∀ ⦃v : Value⦄ ⦃ws text : List Char⦄, D v → ¬ P v → Spaces ws → Written v text →
      ∀ p rest, ∃ m, step ⟨p, ws ++ (text ++ rest)⟩ = .error m) : Decides D P step := by
  intro v ws text hD hws htext p rest
  by_cases hv : P v
  · obtain ⟨x, hx⟩ := hP v hv
    obtain ⟨q, hq⟩ := h hx hws htext p rest
    rw [hq]
    exact .of_ok hv x q
  · obtain ⟨m, hm⟩ := hrefuses hD hv hws htext p rest
    exact .of_error hv hm

/-! ## First characters -/

/-- The texts of the value start with the character. -/
inductive Value.Starts : Value → Char → Prop where
  | null : Starts .null 'n'
  | trueWord : Starts (.boolean true) 't'
  | falseWord : Starts (.boolean false) 'f'
  | number {text : List Char} {c : Char} (h : c = '-' ∨ c.isDigit = true) : Starts (.number text) c
  | string {s : String} : Starts (.string s) '"'
  | array {items : List Value} : Starts (.array items) '['
  | object {members : List (String × Value)} : Starts (.object members) '\x7b'

theorem NumberText.exists_sign_or_digit {text : List Char} (h : NumberText text) :
    ∃ c cs, text = c :: cs ∧ (c = '-' ∨ c.isDigit = true) := by
  obtain ⟨hsign, ⟨hne, hdigits⟩, -, -, -⟩ := h
  rcases hsign with rfl | rfl
  · obtain ⟨c, cs, rfl⟩ := List.exists_cons_of_ne_nil hne
    exact ⟨c, _, rfl, Or.inr (hdigits c List.mem_cons_self)⟩
  · exact ⟨'-', _, rfl, Or.inl rfl⟩

theorem Written.exists_starts {v : Value} {text : List Char} (h : Written v text) :
    ∃ c cs, text = c :: cs ∧ v.Starts c := by
  cases h with
  | null => exact ⟨_, _, rfl, .null⟩
  | trueWord => exact ⟨_, _, rfl, .trueWord⟩
  | falseWord => exact ⟨_, _, rfl, .falseWord⟩
  | number h =>
    obtain ⟨c, cs, rfl, hc⟩ := h.exists_sign_or_digit
    exact ⟨c, cs, rfl, .number hc⟩
  | string h =>
    obtain ⟨-⟩ := h
    exact ⟨_, _, rfl, .string⟩
  | array _ => exact ⟨_, _, rfl, .array⟩
  | object _ => exact ⟨_, _, rfl, .object⟩

/-- A reader of a value goes by the first character of the value. -/
theorem Written.exists_readValue {α : Type} {read : Char → List Char → Step α} {v : Value}
    {ws text : List Char} (hws : Spaces ws) (htext : Written v text) (p : Position)
    (rest : List Char) :
    ∃ c cs q, text = c :: cs ∧ v.Starts c ∧
      readValue read ⟨p, ws ++ (text ++ rest)⟩ = read c (cs ++ rest) ⟨q, c :: (cs ++ rest)⟩ := by
  obtain ⟨c, cs, rfl, hc⟩ := htext.exists_starts
  obtain ⟨_, _, hcons, hspace, -⟩ := htext.exists_cons
  obtain ⟨rfl, -⟩ := List.cons.inj hcons
  obtain ⟨q, hq⟩ : ∃ q, readValue read ⟨p, ws ++ c :: (cs ++ rest)⟩ =
      read c (cs ++ rest) ⟨q, c :: (cs ++ rest)⟩ :=
    Json.exists_readValue hws hspace p (cs ++ rest)
  exact ⟨c, cs, q, rfl, hc, hq⟩

/-- Which character starts a value tells its kind. -/
theorem Value.Starts.kind {v : Value} {c : Char} (h : v.Starts c) :
    (c = '"' → v.IsString) ∧ (c = 'n' → v = .null) ∧ (c = 't' ∨ c = 'f' → v.IsBoolean) ∧
      (c = '[' → v.IsArray) ∧ (c = '\x7b' → ∃ members, v = .object members) := by
  cases h with
  | null => simp
  | trueWord => simp [IsBoolean]
  | falseWord => simp [IsBoolean]
  | number h =>
    refine ⟨?_, ?_, ?_, ?_, ?_⟩
    all_goals
      intro hc
      rcases hc with rfl | rfl
      all_goals exact absurd h (by decide)
  | string => simp [IsString]
  | array => simp [IsArray]
  | object => simp

/-! ## Scalars -/

/-- A value of another type is refused, whatever it is. -/
theorem exists_refuse {α : Type} (expected : Expected) (c : Cursor) :
    ∃ m, (refuse expected c : Except Malformation α) = .error m := by
  unfold refuse
  cases describeValue c with
  | error m => exact ⟨m, rfl⟩
  | ok found => exact ⟨_, rfl⟩

theorem readString_refuses {v : Value} {ws text : List Char} (hv : ¬ v.IsString) (hws : Spaces ws)
    (htext : Written v text) (p : Position) (rest : List Char) :
    ∃ m, readString ⟨p, ws ++ (text ++ rest)⟩ = .error m := by
  unfold readString
  obtain ⟨c, cs, q, -, hc, hread⟩ := htext.exists_readValue hws p rest
  have hquote : c ≠ '"' := fun h => hv (hc.kind.1 h)
  rw [hread, if_neg hquote]
  exact exists_refuse _ _

theorem decides_readString : Decides (fun _ => True) Value.IsString readString :=
  complete_readString.decides (fun _ h => h) fun _ _ _ _ => readString_refuses

theorem decides_readBoolean : Decides (fun _ => True) Value.IsBoolean readBoolean := by
  refine complete_readBoolean.decides (fun _ h => h) ?_
  intro v ws text _ hv hws htext p rest
  unfold readBoolean
  obtain ⟨c, cs, q, -, hc, hread⟩ := htext.exists_readValue hws p rest
  have htrue : c ≠ 't' := fun h => hv (hc.kind.2.2.1 (Or.inl h))
  have hfalse : c ≠ 'f' := fun h => hv (hc.kind.2.2.1 (Or.inr h))
  rw [hread, if_neg htrue, if_neg hfalse]
  exact exists_refuse _ _

theorem decides_readStringOrNull :
    Decides (fun _ => True) Value.IsStringOrNull readStringOrNull := by
  refine complete_readStringOrNull.decides ?_ ?_
  · rintro v (rfl | ⟨s, rfl⟩)
    · exact ⟨none, rfl⟩
    · exact ⟨some s, rfl⟩
  · intro v ws text _ hv hws htext p rest
    obtain ⟨hnull, hstring⟩ := not_or.1 hv
    obtain ⟨c, cs, rfl, hc⟩ := htext.exists_starts
    obtain ⟨_, _, hcons, hspace, -⟩ := htext.exists_cons
    obtain ⟨rfl, -⟩ := List.cons.inj hcons
    obtain ⟨q, hq⟩ := exists_skip hws hspace p (cs ++ rest)
    have hn : c ≠ 'n' := fun h => hnull (hc.kind.2.1 h)
    -- after the blanks, the value is left to the reader of strings
    obtain ⟨m, hm⟩ := readString_refuses hstring spaces_nil htext q rest
    refine ⟨m, ?_⟩
    rw [List.nil_append, List.cons_append] at hm
    rw [readStringOrNull, List.cons_append, hq]
    simp only [if_neg hn, hm]
    rfl

/-! ## Arrays -/

/-- An array is written between brackets. -/
theorem Written.exists_bracket {v : Value} {text : List Char} (hv : v.IsArray)
    (htext : Written v text) :
    ∃ items inner, v = .array items ∧ Items Written items inner ∧
      text = '[' :: (inner ++ [']']) := by
  obtain ⟨items, rfl⟩ := hv
  cases htext with
  | @array _ inner h => exact ⟨items, inner, rfl, h, rfl⟩

section Elements

variable {α : Type} {D P : Value → Prop} {element : Step α} (helement : Decides D P element)
include helement

/-- One round settles one element, and the further rounds settle the others. -/
theorem settled_readElements_succ {v : Value} (hv : D v) {text more rest : List Char}
    (htext : Written v text) {first : Bool} {c : Cursor} {p : Position}
    (hnext : nextElement first c = .ok (true, ⟨p, text ++ more⟩)) {rounds : Nat} {also : Prop}
    (hmore : ∀ q, Settled also rest (readElements element rounds false ⟨q, more⟩)) :
    Settled (P v ∧ also) rest (readElements element (rounds + 1) first c) := by
  rw [readElements, hnext]
  have hhead := helement hv spaces_nil htext p more
  refine hhead.bind ?_
  intro x q
  exact (hmore q).map (x :: ·) fun _ _ => rfl

theorem MoreItems.settled_readElements {items : List Value} {text : List Char}
    (h : MoreItems Written items text) (hD : ∀ v ∈ items, D v) {rounds : Nat}
    (hrounds : items.length ≤ rounds) (p : Position) (rest : List Char) :
    Settled (∀ v ∈ items, P v) rest
      (readElements element (rounds + 1) false ⟨p, text ++ ']' :: rest⟩) := by
  induction h generalizing rounds p with
  | nil hws =>
    obtain ⟨q, hq⟩ := exists_readElements_close hws element false rounds p rest
    rw [hq]
    exact .of_ok (by simp) [] q
  | @cons v items ws ws' text more hws hws' hv _ ih =>
    obtain ⟨hDv, hDitems⟩ := List.forall_mem_cons.1 hD
    obtain ⟨rounds, rfl⟩ := Nat.exists_eq_succ_of_ne_zero (Nat.ne_zero_of_lt hrounds)
    obtain ⟨q, hq⟩ := exists_nextElement_comma hws p (more ++ ']' :: rest) hws' hv
    simp only [List.append_assoc, List.cons_append]
    refine (settled_readElements_succ helement hDv hv hq ?_).congr List.forall_mem_cons.symm
    exact fun q' => ih hDitems (Nat.le_of_succ_le_succ hrounds) q'

theorem Items.settled_readElements {items : List Value} {text : List Char}
    (h : Items Written items text) (hD : ∀ v ∈ items, D v) {rounds : Nat}
    (hrounds : items.length ≤ rounds + 1) (p : Position) (rest : List Char) :
    Settled (∀ v ∈ items, P v) rest
      (readElements element (rounds + 2) true ⟨p, text ++ ']' :: rest⟩) := by
  cases h with
  | nil hws =>
    obtain ⟨q, hq⟩ := exists_readElements_close hws element true (rounds + 1) p rest
    rw [hq]
    exact .of_ok (by simp) [] q
  | @cons v items ws text more hws hv hmore =>
    obtain ⟨hDv, hDitems⟩ := List.forall_mem_cons.1 hD
    obtain ⟨q, hq⟩ := exists_nextElement_first hws p (more ++ ']' :: rest) hv
    simp only [List.append_assoc]
    refine (settled_readElements_succ helement hDv hv hq ?_).congr List.forall_mem_cons.symm
    exact fun q' =>
      hmore.settled_readElements helement hDitems (Nat.le_of_succ_le_succ hrounds) q' rest

/-- The reader of an array decides whether all items have the shape. -/
theorem decides_readArray :
    Decides (fun v => ∀ items, v = .array items → ∀ item ∈ items, D item) (Value.IsArrayOf P)
      (readArray element) := by
  intro v ws text hD hws htext p rest
  unfold readArray
  obtain ⟨c, cs, q, hcons, hc, hread⟩ := htext.exists_readValue hws p rest
  rw [hread]
  by_cases hbracket : c = '['
  · obtain ⟨items, inner, rfl, hitems, rfl⟩ := htext.exists_bracket (hc.kind.2.2.2.1 hbracket)
    obtain ⟨rfl, rfl⟩ := List.cons.inj hcons
    have hrounds : items.length ≤ (inner ++ rest).length + 1 :=
      Nat.le_trans hitems.length_le (by simp)
    have hlength : (inner ++ [']'] ++ rest).length = (inner ++ rest).length + 1 := by
      simp only [List.length_append, List.length_cons, List.length_nil]
      omega
    have hsettled := hitems.settled_readElements helement (hD items rfl) hrounds (q.after '[') rest
    rw [if_pos rfl, Cursor.pass, hlength, List.append_assoc, List.singleton_append]
    refine hsettled.congr ⟨fun h => ⟨items, rfl, h⟩, ?_⟩
    rintro ⟨_, heq, h⟩
    rwa [Value.array.inj heq]
  · rw [if_neg hbracket]
    obtain ⟨m, hm⟩ := exists_refuse (α := List α × Cursor) .array ⟨q, c :: (cs ++ rest)⟩
    refine .of_error ?_ hm
    rintro ⟨items, rfl, -⟩
    cases hc
    exact hbracket rfl

theorem settled_requiredElement {v : Value} (hv : D v) {text rest : List Char}
    (htext : Written v text) {c : Cursor} {p : Position} (expected : Expected) (index : Nat)
    (hnext : nextElement (index == 0) c = .ok (true, ⟨p, text ++ rest⟩)) :
    Settled (P v) rest (requiredElement expected index element c) := by
  rw [requiredElement, hnext]
  exact helement hv spaces_nil htext p rest

end Elements

/-- An element that must be there is missed at the closing bracket. -/
theorem requiredElement_refuses {α : Type} (expected : Expected) (index : Nat) (element : Step α)
    {ws : List Char} (hws : Spaces ws) (p : Position) (rest : List Char) :
    ∃ m, requiredElement expected index element ⟨p, ws ++ ']' :: rest⟩ = .error m := by
  obtain ⟨q, hq⟩ := exists_nextElement_close hws p rest (index == 0)
  obtain ⟨q', hq'⟩ := exists_closeArray spaces_nil q rest
  rw [List.nil_append] at hq'
  rw [requiredElement, hq]
  simp only [bind, Except.bind, hq']
  exact ⟨_, rfl⟩

/-- A comma is refused where the closing bracket must stand. -/
theorem closeArray_refuses {ws : List Char} (hws : Spaces ws) (p : Position) (more : List Char) :
    ∃ m, closeArray ⟨p, ws ++ ',' :: more⟩ = .error m := by
  obtain ⟨q, hq⟩ := exists_skip hws (c := ',') rfl p more
  rw [closeArray, hq]
  simp only [Char.reduceEq, if_false, if_true]
  split
  · split
    · exact ⟨_, rfl⟩
    · exact ⟨_, rfl⟩
  · exact ⟨_, rfl⟩

/-- An array of which all expected items are read must have no other ones. -/
theorem MoreItems.settled_closeArray {α : Type} {items : List Value} {text : List Char}
    (h : MoreItems Written items text) (x : α) (p : Position) (rest : List Char) :
    Settled (items = []) rest (do
      let c ← closeArray ⟨p, text ++ ']' :: rest⟩
      .ok (x, c)) := by
  cases h with
  | nil hws =>
    obtain ⟨q, hq⟩ := exists_closeArray hws p rest
    rw [hq]
    exact .of_ok rfl x q
  | @cons v items ws ws' text more hws _ _ _ =>
    obtain ⟨m, hm⟩ := closeArray_refuses hws p (ws' ++ (text ++ (more ++ ']' :: rest)))
    simp only [List.append_assoc, List.cons_append, hm]
    exact .of_error (List.cons_ne_nil v items) rfl

section Pairs

variable {α β : Type} {P Q : Value → Prop} {left : Step α} {right : Step β}
  (hleft : Decides (fun _ => True) P left) (hright : Decides (fun _ => True) Q right)
include hright

/-- After the first item of a pair, there must be exactly one more. -/
theorem MoreItems.settled_pair {items : List Value} {text : List Char}
    (h : MoreItems Written items text) (x : α) (p : Position) (rest : List Char) :
    Settled (∃ b, items = [b] ∧ Q b) rest (do
      let (y, c) ← requiredElement .pair 1 right ⟨p, text ++ ']' :: rest⟩
      let c ← closeArray c
      .ok ((x, y), c)) := by
  cases h with
  | nil hws =>
    obtain ⟨m, hm⟩ := requiredElement_refuses .pair 1 right hws p rest
    rw [hm]
    exact .of_error (by simp) rfl
  | @cons b items ws ws' text more hws hws' hb hmore =>
    obtain ⟨q, hq⟩ := exists_nextElement_comma hws p (more ++ ']' :: rest) hws' hb
    simp only [List.append_assoc, List.cons_append]
    have hsecond := settled_requiredElement hright trivial hb .pair 1 hq
    refine (hsecond.bind fun y q' => hmore.settled_closeArray (x, y) q' rest).congr ⟨?_, ?_⟩
    · rintro ⟨hQ, rfl⟩
      exact ⟨b, rfl, hQ⟩
    · rintro ⟨_, heq, hQ⟩
      obtain ⟨rfl, rfl⟩ := List.cons.inj heq
      exact ⟨hQ, rfl⟩

include hleft

/-- The reader of a pair decides whether the value is an array of two items of
the right shapes. -/
theorem decides_readPair :
    Decides (fun _ => True) (fun v => ∃ a b, v = .array [a, b] ∧ P a ∧ Q b)
      (readPair left right) := by
  intro v ws text _ hws htext p rest
  unfold readPair
  obtain ⟨c, cs, q, hcons, hc, hread⟩ := htext.exists_readValue hws p rest
  rw [hread]
  by_cases hbracket : c = '['
  · obtain ⟨items, inner, rfl, hitems, rfl⟩ := htext.exists_bracket (hc.kind.2.2.2.1 hbracket)
    obtain ⟨rfl, rfl⟩ := List.cons.inj hcons
    rw [if_pos rfl, Cursor.pass, List.append_assoc, List.singleton_append]
    cases hitems with
    | nil hws =>
      obtain ⟨m, hm⟩ := requiredElement_refuses .pair 0 left hws (q.after '[') rest
      rw [hm]
      exact .of_error (by simp) rfl
    | @cons a items ws text more hws ha hmore =>
      obtain ⟨q', hq'⟩ := exists_nextElement_first hws (q.after '[') (more ++ ']' :: rest) ha
      simp only [List.append_assoc]
      have hfirst := settled_requiredElement hleft trivial ha .pair 0 hq'
      refine (hfirst.bind fun x q'' => hmore.settled_pair hright x q'' rest).congr ⟨?_, ?_⟩
      · rintro ⟨hP, b, rfl, hQ⟩
        exact ⟨a, b, rfl, hP, hQ⟩
      · rintro ⟨_, b, heq, hP, hQ⟩
        obtain ⟨rfl, rfl⟩ := List.cons.inj (Value.array.inj heq)
        exact ⟨hP, b, rfl, hQ⟩
  · rw [if_neg hbracket]
    obtain ⟨m, hm⟩ := exists_refuse (α := (α × β) × Cursor) .pair ⟨q, c :: (cs ++ rest)⟩
    refine .of_error ?_ hm
    rintro ⟨a, b, rfl, -⟩
    cases hc
    exact hbracket rfl

end Pairs

/-! ## Objects -/

/-- Each key stands in the table once, and so does what it is for. -/
structure Members.Keyed {κ β : Type} (members : Members κ β) : Prop where
  texts_nodup : (members.keys.map (·.1)).Nodup
  keys_nodup : (members.keys.map (·.2)).Nodup

/-- A key that stands in a table once is found there. -/
theorem lookup_eq_some_iff_mem {κ : Type} {keys : List (String × κ)}
    (h : (keys.map (·.1)).Nodup) {text : String} {k : κ} :
    keys.lookup text = some k ↔ (text, k) ∈ keys := by
  induction keys with
  | nil => simp
  | cons key keys ih =>
    obtain ⟨name, k'⟩ := key
    obtain ⟨hnotMem, hkeys⟩ := List.nodup_cons.1 h
    by_cases htext : text = name
    · subst htext
      have hother : (text, k) ∉ keys := fun hmem => hnotMem (List.mem_map.2 ⟨_, hmem, rfl⟩)
      simp [hother, eq_comm]
    · have hbeq : (text == name) = false := beq_eq_false_iff_ne.2 htext
      simp [List.lookup_cons, hbeq, ih hkeys, htext]

/-- Members that can be read one after the other, given the keys seen before, and the
keys seen after them. -/
inductive Members.Fits {κ β : Type} (members : Members κ β) (P : κ → Value → Prop) :
    List κ → List (String × Value) → List κ → Prop where
  | nil {seen : List κ} : members.Fits P seen [] seen
  | cons {seen after : List κ} {ms : List (String × Value)} {k : κ} {key : String} {v : Value}
    (hkey : members.keys.lookup key = some k) (hseen : k ∉ seen) (hv : P k v)
    (h : members.Fits P (seen ++ [k]) ms after) : members.Fits P seen ((key, v) :: ms) after

section Members

variable {κ β : Type} {members : Members κ β} {P : κ → Value → Prop}

theorem Members.Keyed.lookup_inj (h : members.Keyed) {key key' : String} {k : κ}
    (hkey : members.keys.lookup key = some k) (hkey' : members.keys.lookup key' = some k) :
    key = key' := by
  rw [lookup_eq_some_iff_mem h.texts_nodup] at hkey hkey'
  exact congrArg Prod.fst (List.inj_on_of_nodup_map h.keys_nodup hkey hkey' rfl)

/-- After the members, their keys are seen in addition to those before. -/
theorem Members.Fits.mem_iff {seen after : List κ} {ms : List (String × Value)}
    (h : members.Fits P seen ms after) (k : κ) :
    k ∈ after ↔ k ∈ seen ∨ ∃ m ∈ ms, members.keys.lookup m.1 = some k := by
  induction h with
  | nil => simp
  | cons hkey _ _ _ ih =>
    rw [ih]
    simp [hkey, or_assoc, eq_comm]

/-- Members can be read exactly if all keys are known and not seen before, no key comes twice,
and each value has the shape for its key. -/
theorem Members.Keyed.exists_fits_iff (hkeyed : members.Keyed) (seen : List κ)
    (ms : List (String × Value)) :
    (∃ after, members.Fits P seen ms after) ↔
      (∀ m ∈ ms, ∃ k, members.keys.lookup m.1 = some k ∧ k ∉ seen ∧ P k m.2) ∧
        (ms.map (·.1)).Nodup := by
  induction ms generalizing seen with
  | nil => exact iff_of_true ⟨seen, .nil⟩ (by simp)
  | cons m ms ih =>
    obtain ⟨key, v⟩ := m
    rw [List.forall_mem_cons, List.map_cons, List.nodup_cons]
    constructor
    · rintro ⟨after, h⟩
      cases h with
      | @cons _ _ _ k _ _ hkey hseen hv h =>
        obtain ⟨hall, hnodup⟩ := (ih (seen ++ [k])).1 ⟨after, h⟩
        refine ⟨⟨⟨k, hkey, hseen, hv⟩, ?_⟩, ?_, hnodup⟩
        · intro m hm
          obtain ⟨k', hk', hnotSeen, hP⟩ := hall m hm
          exact ⟨k', hk', fun hmem => hnotSeen (List.mem_append_left _ hmem), hP⟩
        · intro hmem
          obtain ⟨m, hm, hname⟩ := List.mem_map.1 hmem
          obtain ⟨k', hk', hnotSeen, -⟩ := hall m hm
          have hsame : k = k' := by
            rw [hname, hkey] at hk'
            exact Option.some.inj hk'
          exact hnotSeen (by simp [hsame])
    · rintro ⟨⟨⟨k, hkey, hseen, hv⟩, hall⟩, hnotMem, hnodup⟩
      have htail : ∀ m ∈ ms, ∃ k', members.keys.lookup m.1 = some k' ∧ k' ∉ seen ++ [k] ∧
          P k' m.2 := by
        intro m hm
        obtain ⟨k', hk', hnotSeen, hP⟩ := hall m hm
        refine ⟨k', hk', ?_, hP⟩
        rw [List.mem_append, List.mem_singleton, not_or]
        refine ⟨hnotSeen, ?_⟩
        rintro rfl
        exact hnotMem (List.mem_map.2 ⟨m, hm, hkeyed.lookup_inj hk' hkey⟩)
      obtain ⟨after, h⟩ := (ih (seen ++ [k])).2 ⟨htail, hnodup⟩
      exact ⟨after, .cons hkey hseen hv h⟩

/-- The members of an object make a record exactly if they can be read and the required
key is among those seen. -/
theorem Members.Keyed.isRecord_iff (hkeyed : members.Keyed) {required : String × κ}
    (hrequired : required ∈ members.keys) (ms : List (String × Value)) :
    Value.IsRecord (members.keys.map fun key => (key.1, P key.2)) required.1 (.object ms) ↔
      ∃ after, members.Fits P [] ms after ∧ required.2 ∈ after := by
  have hknown : ∀ m : String × Value,
      (∃ Q, (m.1, Q) ∈ members.keys.map (fun key => (key.1, P key.2)) ∧ Q m.2) ↔
        ∃ k, members.keys.lookup m.1 = some k ∧ k ∉ [] ∧ P k m.2 := by
    intro m
    simp only [lookup_eq_some_iff_mem hkeyed.texts_nodup, List.mem_map, Prod.mk.injEq]
    constructor
    · rintro ⟨_, ⟨key, hkey, hname, rfl⟩, hP⟩
      exact ⟨key.2, hname ▸ hkey, List.not_mem_nil, hP⟩
    · rintro ⟨k, hkey, -, hP⟩
      exact ⟨P k, ⟨_, hkey, rfl, rfl⟩, hP⟩
  have hname : members.keys.lookup required.1 = some required.2 :=
    (lookup_eq_some_iff_mem hkeyed.texts_nodup).2 hrequired
  have hmem : ∀ {after}, members.Fits P [] ms after →
      (required.1 ∈ ms.map (·.1) ↔ required.2 ∈ after) := by
    intro after h
    rw [h.mem_iff, List.mem_map]
    constructor
    · rintro ⟨m, hm, heq⟩
      exact Or.inr ⟨m, hm, heq ▸ hname⟩
    · rintro (hnil | ⟨m, hm, hlookup⟩)
      · exact absurd hnil List.not_mem_nil
      · exact ⟨m, hm, hkeyed.lookup_inj hlookup hname⟩
  constructor
  · rintro ⟨_, heq, hall, hnodup, hreq⟩
    obtain rfl := Value.object.inj heq
    obtain ⟨after, h⟩ :=
      (hkeyed.exists_fits_iff [] ms).2 ⟨fun m hm => (hknown m).1 (hall m hm), hnodup⟩
    exact ⟨after, h, (hmem h).1 hreq⟩
  · rintro ⟨after, h, hreq⟩
    obtain ⟨hall, hnodup⟩ := (hkeyed.exists_fits_iff [] ms).1 ⟨after, h⟩
    exact ⟨ms, rfl, fun m hm => (hknown m).2 (hall m hm), hnodup, (hmem h).2 hreq⟩

variable [DecidableEq κ] {D : κ → Value → Prop}

/-- The members are read to a record with the keys seen after them, if there are such keys, and
otherwise there is a fault. -/
def Members.Reads (members : Members κ β) (P : κ → Value → Prop) (seen : List κ)
    (ms : List (String × Value)) (rest : List Char)
    (result : Except Malformation ((List κ × β) × Cursor)) : Prop :=
  (∃ after, members.Fits P seen ms after ∧ ∃ record q, result = .ok ((after, record), ⟨q, rest⟩)) ∨
    (¬ ∃ after, members.Fits P seen ms after) ∧ ∃ m, result = .error m

theorem reads_close {ws : List Char} (hws : Spaces ws) (first : Bool) (seen : List κ) (record : β)
    (rounds : Nat) (p : Position) (rest : List Char) :
    members.Reads P seen [] rest
      (readMembers members (rounds + 1) first seen record ⟨p, ws ++ '\x7d' :: rest⟩) := by
  obtain ⟨q, hq⟩ := exists_readMembers_close members hws first seen record rounds p rest
  exact Or.inl ⟨seen, .nil, record, q, hq⟩

variable (hread : ∀ k record, Decides (D k) (P k) (members.read k record))
include hread

/-- One round reads one member, and the further rounds read the others. -/
theorem reads_cons {key : String} {v : Value} {ws ws' text more rest : List Char}
    (hD : ∀ k, members.keys.lookup key = some k → D k v) (hws : Spaces ws) (hws' : Spaces ws')
    (htext : Written v text) {first : Bool} {c : Cursor} {p : Position}
    (hnext : nextKey first c = .ok (some key, ⟨p, ws ++ ':' :: (ws' ++ (text ++ more))⟩))
    {seen : List κ} {record : β} {rounds : Nat} {ms : List (String × Value)}
    (hmore : ∀ k record q, members.Reads P (seen ++ [k]) ms rest
      (readMembers members rounds false (seen ++ [k]) record ⟨q, more⟩)) :
    members.Reads P seen ((key, v) :: ms) rest
      (readMembers members (rounds + 1) first seen record c) := by
  rw [readMembers, hnext]
  simp only [bind, Except.bind]
  split
  · next hunknown =>
    refine Or.inr ⟨?_, _, rfl⟩
    rintro ⟨after, h⟩
    cases h with
    | cons hkey => simp [hunknown] at hkey
  · next k hkey =>
    split
    · next hseen =>
      refine Or.inr ⟨?_, _, rfl⟩
      rintro ⟨after, h⟩
      cases h with
      | cons hkey' hnotSeen =>
        obtain rfl := Option.some.inj (hkey.symm.trans hkey')
        exact hnotSeen hseen
    · next hseen =>
      obtain ⟨q, hq⟩ := exists_passColon hws p (ws' ++ (text ++ more))
      rw [hq]
      rcases hread k record (hD k hkey) hws' htext q more with ⟨hv, record', q', hok⟩ | ⟨hv, m, hm⟩
      · simp only [hok]
        rcases hmore k record' q' with ⟨after, h, hresult⟩ | ⟨hnone, hresult⟩
        · exact Or.inl ⟨after, .cons hkey hseen hv h, hresult⟩
        · refine Or.inr ⟨?_, hresult⟩
          rintro ⟨after, h⟩
          cases h with
          | cons hkey' _ _ h =>
            obtain rfl := Option.some.inj (hkey.symm.trans hkey')
            exact hnone ⟨after, h⟩
      · simp only [hm]
        refine Or.inr ⟨?_, m, rfl⟩
        rintro ⟨after, h⟩
        cases h with
        | cons hkey' _ hv' =>
          obtain rfl := Option.some.inj (hkey.symm.trans hkey')
          exact hv hv'

theorem MoreItems.reads_members {ms : List (String × Value)} {text : List Char}
    (h : MoreItems (MemberText Written) ms text)
    (hD : ∀ m ∈ ms, ∀ k, members.keys.lookup m.1 = some k → D k m.2) (seen : List κ) (record : β)
    {rounds : Nat} (hrounds : ms.length ≤ rounds) (p : Position) (rest : List Char) :
    members.Reads P seen ms rest
      (readMembers members (rounds + 1) false seen record ⟨p, text ++ '\x7d' :: rest⟩) := by
  induction h generalizing seen record rounds p with
  | nil hws => exact reads_close hws false seen record rounds p rest
  | @cons _ ms ws ws' _ more hws hws' hmember _ ih =>
    obtain ⟨hDm, hDms⟩ := List.forall_mem_cons.1 hD
    obtain ⟨rounds, rfl⟩ := Nat.exists_eq_succ_of_ne_zero (Nat.ne_zero_of_lt hrounds)
    cases hmember with
    | @mk key v name ws₁ ws₂ text hkey hws₁ hws₂ hv =>
      obtain ⟨q, hq⟩ := exists_nextKey_comma hws p
        (ws₁ ++ ':' :: (ws₂ ++ (text ++ (more ++ '\x7d' :: rest)))) hws' hkey
      simp only [List.append_assoc, List.cons_append]
      refine reads_cons hread hDm hws₁ hws₂ hv hq fun k record q' => ?_
      exact ih hDms (seen ++ [k]) record (Nat.le_of_succ_le_succ hrounds) q'

theorem Items.reads_members {ms : List (String × Value)} {text : List Char}
    (h : Items (MemberText Written) ms text)
    (hD : ∀ m ∈ ms, ∀ k, members.keys.lookup m.1 = some k → D k m.2) (record : β)
    {rounds : Nat} (hrounds : ms.length ≤ rounds + 1) (p : Position) (rest : List Char) :
    members.Reads P [] ms rest
      (readMembers members (rounds + 2) true [] record ⟨p, text ++ '\x7d' :: rest⟩) := by
  cases h with
  | nil hws => exact reads_close hws true [] record (rounds + 1) p rest
  | @cons _ ms ws _ more hws hmember hmore =>
    obtain ⟨hDm, hDms⟩ := List.forall_mem_cons.1 hD
    cases hmember with
    | @mk key v name ws₁ ws₂ text hkey hws₁ hws₂ hv =>
      obtain ⟨q, hq⟩ := exists_nextKey_first hws p
        (ws₁ ++ ':' :: (ws₂ ++ (text ++ (more ++ '\x7d' :: rest)))) hkey
      simp only [List.append_assoc, List.cons_append]
      refine reads_cons hread hDm hws₁ hws₂ hv hq fun k record q' => ?_
      exact hmore.reads_members hread hDms _ record (Nat.le_of_succ_le_succ hrounds) q' rest

/-- The reader of a record decides whether an object is one. -/
theorem decides_readRecord (hkeyed : members.Keyed) {required : String × κ}
    (hrequired : required ∈ members.keys) (expected : Expected) (blank : β) (positional : Step β) :
    Decides
      (fun v => ¬ v.IsArray ∧ ∀ ms, v = .object ms →
        ∀ m ∈ ms, ∀ k, (m.1, k) ∈ members.keys → D k m.2)
      (Value.IsRecord (members.keys.map fun key => (key.1, P key.2)) required.1)
      (readRecord expected members required blank positional) := by
  rintro v ws text ⟨harray, hD⟩ hws htext p rest
  unfold readRecord
  obtain ⟨c, cs, q, hcons, hc, hvalue⟩ := htext.exists_readValue hws p rest
  rw [hvalue]
  by_cases hbrace : c = '\x7b'
  · obtain ⟨ms, rfl⟩ := hc.kind.2.2.2.2 hbrace
    refine Settled.congr ?_ (hkeyed.isRecord_iff hrequired ms).symm
    cases htext with
    | @object _ inner hms =>
      obtain ⟨rfl, rfl⟩ := List.cons.inj hcons
      have hrounds : ms.length ≤ (inner ++ rest).length + 1 :=
        Nat.le_trans hms.length_le (by simp)
      have hlength : (inner ++ '\x7d' :: rest).length = (inner ++ rest).length + 1 := by
        simp only [List.length_append, List.length_cons]
        omega
      have hDms : ∀ m ∈ ms, ∀ k, members.keys.lookup m.1 = some k → D k m.2 := fun m hm k hk =>
        hD ms rfl m hm k ((lookup_eq_some_iff_mem hkeyed.texts_nodup).1 hk)
      have hreads := hms.reads_members hread hDms blank hrounds (q.after '\x7b') rest
      simp only [if_true, Cursor.pass, List.append_assoc, List.singleton_append, hlength]
      rcases hreads with ⟨after, h, record, q', hok⟩ | ⟨hnone, m, hm⟩
      · simp only [hok, bind, Except.bind]
        by_cases hreq : required.2 ∈ after
        · rw [if_pos hreq]
          exact .of_ok ⟨after, h, hreq⟩ record q'
        · rw [if_neg hreq]
          refine .of_error ?_ rfl
          rintro ⟨after', h', hreq'⟩
          exact hreq ((h.mem_iff _).2 ((h'.mem_iff _).1 hreq'))
      · simp only [hm, bind, Except.bind]
        refine .of_error ?_ rfl
        rintro ⟨after, h, -⟩
        exact hnone ⟨after, h⟩
  · have hbracket : c ≠ '[' := fun h => harray (hc.kind.2.2.2.1 h)
    rw [if_neg hbrace, if_neg hbracket]
    obtain ⟨m, hm⟩ := exists_refuse (α := β × Cursor) expected ⟨q, c :: (cs ++ rest)⟩
    refine .of_error ?_ hm
    rintro ⟨ms, rfl, -⟩
    cases hc
    exact hbrace rfl

end Members

end TreeHeaders.Json
