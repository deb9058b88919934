import TreeHeaders.Json.Reader
import TreeHeaders.Proofs.JsonGrammar
import Mathlib.Data.List.TakeWhile

set_option autoImplicit false

/-!
# Written values are read

Every reader takes each text of a value that it expects, and passes exactly that text:
`Complete`. A reader of an array or of an object is complete as soon as the readers of
its parts are. The positions that readers keep are only for their faults, so nothing
is said about them here.
-/

namespace TreeHeaders.Json

/-- The step reads every text of a value that stands for `x`, with blanks before it, as `x`,
whatever comes after the value. -/
def Complete {α : Type} (R : Value → α → Prop) (step : Step α) : Prop :=
  ∀ {v : Value} {x : α} {ws text : List Char}, R v x → Spaces ws → Written v text →
    ∀ (p : Position) (rest : List Char),
      ∃ q, step ⟨p, ws ++ (text ++ rest)⟩ = .ok (x, ⟨q, rest⟩)

theorem Complete.exists_read {α : Type} {R : Value → α → Prop} {step : Step α}
    (h : Complete R step) {v : Value} {x : α} {text : List Char} (hx : R v x)
    (hv : Written v text) (p : Position) (rest : List Char) :
    ∃ q, step ⟨p, text ++ rest⟩ = .ok (x, ⟨q, rest⟩) :=
  h hx spaces_nil hv p rest

/-! ## Blanks -/

theorem exists_skip {ws : List Char} (hws : Spaces ws) {c : Char} (hc : isSpace c = false)
    (p : Position) (cs : List Char) :
    ∃ q, Cursor.skip ⟨p, ws ++ c :: cs⟩ = ⟨q, c :: cs⟩ := by
  induction ws generalizing p with
  | nil => exact ⟨p, by simp [Cursor.skip, skipSpaces, hc]⟩
  | cons w ws ih =>
    obtain ⟨hw, hws⟩ := List.forall_mem_cons.1 hws
    obtain ⟨q, hq⟩ := ih hws (p.after w)
    refine ⟨q, ?_⟩
    rw [← hq]
    simp [Cursor.skip, skipSpaces, isSpace_iff.2 hw]

theorem exists_readValue {α : Type} {read : Char → List Char → Step α} {ws : List Char}
    (hws : Spaces ws) {c : Char} (hc : isSpace c = false) (p : Position) (cs : List Char) :
    ∃ q, readValue read ⟨p, ws ++ c :: cs⟩ = read c cs ⟨q, c :: cs⟩ := by
  obtain ⟨q, hq⟩ := exists_skip hws hc p cs
  exact ⟨q, by simp [readValue, hq]⟩

/-! ## Strings -/

theorem HexDigit.hexDigit?_eq {c : Char} {n : Nat} (h : HexDigit c n) : hexDigit? c = some n := by
  have hall : ∀ n < 16,
      hexDigit? n.digitChar = some n ∧ hexDigit? n.digitChar.toUpper = some n := by
    decide
  obtain ⟨hn, rfl | rfl⟩ := h
  · exact (hall n hn).1
  · exact (hall n hn).2

/-- A code unit is read from its four digits. -/
theorem UnitText.exists_digits {n : Nat} {text : List Char} (h : UnitText n text) :
    ∃ a b c d, text = ['\\', 'u', a, b, c, d] ∧ codeUnit? a b c d = some n := by
  obtain ⟨ha, hb, hc, hd⟩ := h
  refine ⟨_, _, _, _, rfl, ?_⟩
  simp only [codeUnit?, ha.hexDigit?_eq, hb.hexDigit?_eq, hc.hexDigit?_eq, hd.hexDigit?_eq,
    Option.bind_eq_bind, Option.bind_some, Option.pure_def, Option.some.injEq]
  omega

/-- A character does not lie among the surrogates. -/
theorem toNat_not_surrogate (c : Char) : c.toNat < 0xd800 ∨ 0xdfff < c.toNat ∧ c.toNat < 0x110000 :=
  c.valid

theorem letterEscape?_eq {c e : Char} (h : (e, c) ∈ letterEscapes) : letterEscape? e = some c := by
  simp only [letterEscapes, List.mem_cons, Prod.mk.injEq, List.not_mem_nil, or_false] at h
  rcases h with ⟨rfl, rfl⟩ | ⟨rfl, rfl⟩ | ⟨rfl, rfl⟩ | ⟨rfl, rfl⟩ | ⟨rfl, rfl⟩ | ⟨rfl, rfl⟩ |
    ⟨rfl, rfl⟩ | ⟨rfl, rfl⟩ <;> rfl

theorem stringChars_plain {c : Char} (hcontrol : 0x20 ≤ c.toNat) (hquote : c ≠ '"')
    (hbackslash : c ≠ '\\') (p : Position) (rest : List Char) :
    stringChars p (c :: rest) = (stringChars (p.after c) rest).map (consChar c) := by
  rw [stringChars.eq_def]
  simp only
  rw [if_neg hquote, if_neg (by omega), if_pos hbackslash]

theorem stringChars_letter {c e : Char} (h : letterEscape? e = some c) (p : Position)
    (rest : List Char) :
    stringChars p ('\\' :: e :: rest) =
      (stringChars ((p.after '\\').after e) rest).map (consChar c) := by
  rw [stringChars.eq_def]
  simp only [h]
  rw [if_neg (by decide), if_neg (by decide), if_neg (by decide)]

theorem stringChars_unit {a b c d : Char} {n : Nat} (h : codeUnit? a b c d = some n)
    (hleading : isLeading n = false) (htrailing : isTrailing n = false) (p : Position) :
    ∃ q, ∀ rest, stringChars p ('\\' :: 'u' :: a :: b :: c :: d :: rest) =
      (stringChars q rest).map (consChar (Char.ofNat n)) := by
  refine ⟨((p.after '\\').after 'u').afterAll [a, b, c, d], fun rest => ?_⟩
  rw [stringChars.eq_def]
  have hu : letterEscape? 'u' = none := by decide
  simp [hu, h, hleading, htrailing]

theorem stringChars_pair {a b c d a' b' c' d' : Char} {n m : Nat}
    (h : codeUnit? a b c d = some n) (h' : codeUnit? a' b' c' d' = some m)
    (hleading : isLeading n = true) (hn : isTrailing n = false) (htrailing : isTrailing m = true)
    (p : Position) :
    ∃ q, ∀ rest, stringChars p
        ('\\' :: 'u' :: a :: b :: c :: d :: '\\' :: 'u' :: a' :: b' :: c' :: d' :: rest) =
      (stringChars q rest).map (consChar (pairedChar n m)) := by
  refine ⟨(((((p.after '\\').after 'u').afterAll [a, b, c, d]).after '\\').after 'u').afterAll
    [a', b', c', d'], fun rest => ?_⟩
  rw [stringChars.eq_def]
  have hu : letterEscape? 'u' = none := by decide
  simp [hu, h, h', hleading, hn, htrailing]

/-- The text of one character of a string is read as the character. -/
theorem CharText.exists_stringChars {c : Char} {text : List Char} (h : CharText c text)
    (p : Position) :
    ∃ q, ∀ rest, stringChars p (text ++ rest) = (stringChars q rest).map (consChar c) := by
  have hvalid := toNat_not_surrogate c
  cases h with
  | plain hcontrol hquote hbackslash =>
    exact ⟨p.after c, stringChars_plain hcontrol hquote hbackslash p⟩
  | letter h =>
    have hletter := letterEscape?_eq h
    exact ⟨_, stringChars_letter hletter p⟩
  | units h =>
    rw [codeUnits] at h
    split at h
    · next hlt =>
      obtain ⟨unit, _, hunit, hnil, rfl⟩ := List.forall₂_cons_left_iff.1 h
      obtain rfl := List.forall₂_nil_left_iff.1 hnil
      obtain ⟨a, b, c', d, rfl, hn⟩ := hunit.exists_digits
      have hleading : isLeading c.toNat = false := by
        simp only [isLeading, Bool.and_eq_false_iff, decide_eq_false_iff_not]
        omega
      have htrailing : isTrailing c.toNat = false := by
        simp only [isTrailing, Bool.and_eq_false_iff, decide_eq_false_iff_not]
        omega
      obtain ⟨q, hq⟩ := stringChars_unit hn hleading htrailing p
      refine ⟨q, fun rest => ?_⟩
      rw [Char.ofNat_toNat] at hq
      simpa using hq rest
    · next hlt =>
      obtain ⟨first, _, hfirst, hmore, rfl⟩ := List.forall₂_cons_left_iff.1 h
      obtain ⟨second, _, hsecond, hnil, rfl⟩ := List.forall₂_cons_left_iff.1 hmore
      obtain rfl := List.forall₂_nil_left_iff.1 hnil
      obtain ⟨a, b, c', d, rfl, hn⟩ := hfirst.exists_digits
      obtain ⟨a', b', c'', d', rfl, hm⟩ := hsecond.exists_digits
      have hpaired : pairedChar (0xd800 + (c.toNat - 0x10000) / 0x400)
          (0xdc00 + (c.toNat - 0x10000) % 0x400) = c := by
        have harith : 0x10000 + (0xd800 + (c.toNat - 0x10000) / 0x400 - 0xd800) * 0x400 +
            (0xdc00 + (c.toNat - 0x10000) % 0x400 - 0xdc00) = c.toNat := by omega
        rw [pairedChar, harith, Char.ofNat_toNat]
      obtain ⟨q, hq⟩ := stringChars_pair hn hm
        (by simp only [isLeading, Bool.and_eq_true, decide_eq_true_eq]; omega)
        (by simp only [isTrailing, Bool.and_eq_false_iff, decide_eq_false_iff_not]; omega)
        (by simp only [isTrailing, Bool.and_eq_true, decide_eq_true_eq]; omega) p
      refine ⟨q, fun rest => ?_⟩
      rw [hpaired] at hq
      simpa using hq rest

/-- The text of all characters of a string is read up to its closing quote. -/
theorem exists_stringChars {cs : List Char} {texts : List (List Char)}
    (h : List.Forall₂ CharText cs texts) (p : Position) (rest : List Char) :
    ∃ q, stringChars p (texts.flatten ++ '"' :: rest) = .ok (cs, ⟨q, rest⟩) := by
  induction h generalizing p with
  | nil =>
    refine ⟨p.after '"', ?_⟩
    rw [List.flatten_nil, List.nil_append, stringChars.eq_def]
    rfl
  | cons hc _ ih =>
    obtain ⟨q, hq⟩ := hc.exists_stringChars p
    obtain ⟨q', hq'⟩ := ih q
    refine ⟨q', ?_⟩
    rw [List.flatten_cons, List.append_assoc, hq, hq']
    rfl

theorem StringText.exists_readStringRest {s : String} {text : List Char} (h : StringText s text) :
    ∃ inner, text = '"' :: inner ∧
      ∀ p rest, ∃ q, readStringRest ⟨p, inner ++ rest⟩ = .ok (s, ⟨q, rest⟩) := by
  obtain ⟨htexts⟩ := h
  refine ⟨_, rfl, fun p rest => ?_⟩
  obtain ⟨q, hq⟩ := exists_stringChars htexts p rest
  refine ⟨q, ?_⟩
  simp only [readStringRest, List.append_assoc, List.singleton_append, hq]
  simp [bind, Except.bind, String.ofList_toList]

theorem complete_readString : Complete (fun v s => v = .string s) readString := by
  intro v s ws text hv hws htext p rest
  subst hv
  cases htext with
  | string h =>
    obtain ⟨inner, rfl, hinner⟩ := h.exists_readStringRest
    obtain ⟨q, hq⟩ := exists_readValue hws (c := '"') rfl p (inner ++ rest)
    obtain ⟨q', hq'⟩ := hinner (q.after '"') rest
    refine ⟨q', ?_⟩
    rw [readString, List.cons_append, hq, if_pos rfl, Cursor.pass, hq']

/-! ## Words -/

theorem exists_readLetters (ls : List Char) (p : Position) (rest : List Char) :
    ∃ q, readLetters ls ⟨p, ls ++ rest⟩ = .ok ⟨q, rest⟩ := by
  induction ls generalizing p with
  | nil => exact ⟨p, rfl⟩
  | cons l ls ih =>
    obtain ⟨q, hq⟩ := ih (p.after l)
    exact ⟨q, by simp [readLetters, Cursor.pass, hq]⟩

theorem complete_readBoolean : Complete (fun v b => v = .boolean b) readBoolean := by
  intro v b ws text hv hws htext p rest
  subst hv
  cases htext with
  | trueWord =>
    obtain ⟨q, hq⟩ := exists_readValue hws (c := 't') rfl p (['r', 'u', 'e'] ++ rest)
    obtain ⟨q', hq'⟩ := exists_readLetters ['r', 'u', 'e'] (q.after 't') rest
    refine ⟨q', ?_⟩
    rw [readBoolean, List.cons_append, hq, if_pos rfl, Cursor.pass, hq']
    rfl
  | falseWord =>
    obtain ⟨q, hq⟩ := exists_readValue hws (c := 'f') rfl p (['a', 'l', 's', 'e'] ++ rest)
    obtain ⟨q', hq'⟩ := exists_readLetters ['a', 'l', 's', 'e'] (q.after 'f') rest
    refine ⟨q', ?_⟩
    rw [readBoolean, List.cons_append, hq, if_neg (by decide), if_pos rfl, Cursor.pass, hq']
    rfl

theorem complete_readStringOrNull :
    Complete (fun v s => v = s.elim .null .string) readStringOrNull := by
  intro v s ws text hv hws htext p rest
  subst hv
  cases s with
  | none =>
    cases htext with
    | null =>
      obtain ⟨q, hq⟩ := exists_skip hws (c := 'n') rfl p (['u', 'l', 'l'] ++ rest)
      obtain ⟨q', hq'⟩ := exists_readLetters ['u', 'l', 'l'] (q.after 'n') rest
      refine ⟨q', ?_⟩
      rw [readStringOrNull, List.cons_append, hq]
      simp only [Cursor.pass, hq', if_true]
      rfl
  | some s =>
    obtain ⟨d, cs, rfl, hd⟩ := htext.exists_cons
    obtain ⟨q, hq⟩ := exists_skip hws hd.1 p (cs ++ rest)
    obtain ⟨q', hq'⟩ := complete_readString.exists_read rfl htext q rest
    have hn : d ≠ 'n' := by
      cases htext with
      | string h =>
        obtain ⟨inner, hinner, -⟩ := h.exists_readStringRest
        rw [(List.cons.inj hinner).1]
        decide
    refine ⟨q', ?_⟩
    rw [readStringOrNull, List.cons_append, hq]
    simp only [if_neg hn]
    rw [List.cons_append] at hq'
    rw [hq']
    rfl

/-! ## Arrays -/

section Arrays

variable {ws ws' : List Char} (hws : Spaces ws) (p : Position) (rest : List Char)
include hws

theorem exists_nextElement_close (first : Bool) :
    ∃ q, nextElement first ⟨p, ws ++ ']' :: rest⟩ = .ok (false, ⟨q, ']' :: rest⟩) := by
  obtain ⟨q, hq⟩ := exists_skip hws (c := ']') rfl p rest
  exact ⟨q, by simp [nextElement, hq]⟩

theorem exists_nextElement_first {v : Value} {text : List Char} (hv : Written v text) :
    ∃ q, nextElement true ⟨p, ws ++ (text ++ rest)⟩ = .ok (true, ⟨q, text ++ rest⟩) := by
  obtain ⟨d, cs, rfl, hd⟩ := hv.exists_cons
  obtain ⟨q, hq⟩ := exists_skip hws hd.1 p (cs ++ rest)
  exact ⟨q, by simp [nextElement, hq, hd.2]⟩

theorem exists_nextElement_comma (hws' : Spaces ws') {v : Value} {text : List Char}
    (hv : Written v text) :
    ∃ q, nextElement false ⟨p, ws ++ ',' :: (ws' ++ (text ++ rest))⟩ =
      .ok (true, ⟨q, text ++ rest⟩) := by
  obtain ⟨d, cs, rfl, hd⟩ := hv.exists_cons
  obtain ⟨q, hq⟩ := exists_skip hws (c := ',') rfl p (ws' ++ d :: (cs ++ rest))
  obtain ⟨q', hq'⟩ := exists_skip hws' hd.1 (q.after ',') (cs ++ rest)
  exact ⟨q', by simp [nextElement, hq, Cursor.pass, hq', hd.2]⟩

theorem exists_closeArray : ∃ q, closeArray ⟨p, ws ++ ']' :: rest⟩ = .ok ⟨q, rest⟩ := by
  obtain ⟨q, hq⟩ := exists_skip hws (c := ']') rfl p rest
  exact ⟨q.after ']', by simp [closeArray, hq, Cursor.pass]⟩

end Arrays

theorem exists_readElements_close {α : Type} {ws : List Char} (hws : Spaces ws)
    (element : Step α) (first : Bool) (rounds : Nat) (p : Position) (rest : List Char) :
    ∃ q, readElements element (rounds + 1) first ⟨p, ws ++ ']' :: rest⟩ = .ok ([], ⟨q, rest⟩) := by
  obtain ⟨q, hq⟩ := exists_nextElement_close hws p rest first
  obtain ⟨q', hq'⟩ := exists_closeArray spaces_nil q rest
  rw [List.nil_append] at hq'
  exact ⟨q', by simp [readElements, hq, hq', bind, Except.bind]⟩

section Elements

variable {α : Type} {R : Value → α → Prop} {element : Step α} (helement : Complete R element)
include helement

/-- One round reads one element. -/
theorem exists_readElements_succ {v : Value} {x : α} {text more : List Char} (hx : R v x)
    (hv : Written v text) {first : Bool} {c : Cursor} {p : Position}
    (hnext : nextElement first c = .ok (true, ⟨p, text ++ more⟩)) (rounds : Nat) :
    ∃ q, readElements element (rounds + 1) first c =
      (readElements element rounds false ⟨q, more⟩).map fun read => (x :: read.1, read.2) := by
  obtain ⟨q, hq⟩ := helement.exists_read hx hv p more
  refine ⟨q, ?_⟩
  rw [readElements, hnext]
  simp only [bind, Except.bind, hq, if_true]
  cases readElements element rounds false ⟨q, more⟩ <;> rfl

/-- After one element, the further ones are read in as many rounds as there are,
and one more. -/
theorem MoreItems.exists_readElements {items : List Value} {text : List Char}
    (h : MoreItems Written items text) {xs : List α} (hxs : List.Forall₂ R items xs)
    {rounds : Nat} (hrounds : items.length ≤ rounds) (p : Position) (rest : List Char) :
    ∃ q, readElements element (rounds + 1) false ⟨p, text ++ ']' :: rest⟩ =
      .ok (xs, ⟨q, rest⟩) := by
  induction h generalizing xs rounds p with
  | nil hws =>
    obtain rfl := List.forall₂_nil_left_iff.1 hxs
    exact exists_readElements_close hws element false rounds p rest
  | @cons v items ws ws' text more hws hws' hv _ ih =>
    obtain ⟨x, xs, hx, htail, rfl⟩ := List.forall₂_cons_left_iff.1 hxs
    obtain ⟨rounds, rfl⟩ := Nat.exists_eq_succ_of_ne_zero (Nat.ne_zero_of_lt hrounds)
    obtain ⟨q, hq⟩ := exists_nextElement_comma hws p (more ++ ']' :: rest) hws' hv
    obtain ⟨q', hq'⟩ := exists_readElements_succ helement hx hv hq (rounds + 1)
    obtain ⟨q'', hq''⟩ := ih htail (Nat.le_of_succ_le_succ hrounds) q'
    refine ⟨q'', ?_⟩
    simp only [List.append_assoc, List.cons_append]
    rw [hq', hq'']
    rfl

theorem Items.exists_readElements {items : List Value} {text : List Char}
    (h : Items Written items text) {xs : List α} (hxs : List.Forall₂ R items xs)
    {rounds : Nat} (hrounds : items.length ≤ rounds + 1) (p : Position) (rest : List Char) :
    ∃ q, readElements element (rounds + 2) true ⟨p, text ++ ']' :: rest⟩ =
      .ok (xs, ⟨q, rest⟩) := by
  cases h with
  | nil hws =>
    obtain rfl := List.forall₂_nil_left_iff.1 hxs
    exact exists_readElements_close hws element true (rounds + 1) p rest
  | @cons v items ws text more hws hv hmore =>
    obtain ⟨x, xs, hx, htail, rfl⟩ := List.forall₂_cons_left_iff.1 hxs
    obtain ⟨q, hq⟩ := exists_nextElement_first hws p (more ++ ']' :: rest) hv
    obtain ⟨q', hq'⟩ := exists_readElements_succ helement hx hv hq (rounds + 1)
    obtain ⟨q'', hq''⟩ :=
      hmore.exists_readElements helement htail (Nat.le_of_succ_le_succ hrounds) q' rest
    refine ⟨q'', ?_⟩
    simp only [List.append_assoc]
    rw [hq', hq'']
    rfl

/-- An array is read if all of its items are. -/
theorem complete_readArray :
    Complete (fun v xs => ∃ items, v = .array items ∧ List.Forall₂ R items xs)
      (readArray element) := by
  rintro _ xs ws _ ⟨items, rfl, hxs⟩ hws htext p rest
  cases htext with
  | @array _ text h =>
    obtain ⟨q, hq⟩ := exists_readValue hws (c := '[') rfl p (text ++ ']' :: rest)
    have hrounds : items.length ≤ (text ++ rest).length + 1 :=
      Nat.le_trans h.length_le (by simp)
    obtain ⟨q', hq'⟩ := h.exists_readElements helement hxs hrounds (q.after '[') rest
    have hlength : (text ++ ']' :: rest).length = (text ++ rest).length + 1 := by
      simp only [List.length_append, List.length_cons]
      omega
    refine ⟨q', ?_⟩
    rw [readArray, List.cons_append, List.append_assoc, List.singleton_append, hq, if_pos rfl,
      Cursor.pass, hlength, hq']

theorem exists_requiredElement {v : Value} {x : α} {text rest : List Char} (hx : R v x)
    (hv : Written v text) {c : Cursor} {p : Position} (expected : Expected) (index : Nat)
    (hnext : nextElement (index == 0) c = .ok (true, ⟨p, text ++ rest⟩)) :
    ∃ q, requiredElement expected index element c = .ok (x, ⟨q, rest⟩) := by
  obtain ⟨q, hq⟩ := helement.exists_read hx hv p rest
  refine ⟨q, ?_⟩
  rw [requiredElement, hnext]
  simp only [bind, Except.bind, if_true, hq]

end Elements

theorem Items.exists_pair {a b : Value} {text : List Char} (h : Items Written [a, b] text) :
    ∃ ws left ws₁ ws₂ right ws₃, Spaces ws ∧ Written a left ∧ Spaces ws₁ ∧ Spaces ws₂ ∧
      Written b right ∧ Spaces ws₃ ∧
      text = ws ++ (left ++ (ws₁ ++ ',' :: (ws₂ ++ (right ++ ws₃)))) := by
  cases h with
  | cons hws ha hmore =>
    cases hmore with
    | cons hws₁ hws₂ hb hnil =>
      cases hnil with
      | nil hws₃ => exact ⟨_, _, _, _, _, _, hws, ha, hws₁, hws₂, hb, hws₃, rfl⟩

/-- An array of two items is read as a pair if both of them are read. -/
theorem complete_readPair {α β : Type} {R : Value → α → Prop} {S : Value → β → Prop}
    {left : Step α} {right : Step β} (hleft : Complete R left) (hright : Complete S right) :
    Complete (fun v xy => ∃ a b, v = .array [a, b] ∧ R a xy.1 ∧ S b xy.2)
      (readPair left right) := by
  rintro _ ⟨x, y⟩ ws _ ⟨a, b, rfl, hx, hy⟩ hws htext p rest
  cases htext with
  | array h =>
    obtain ⟨ws₀, ta, ws₁, ws₂, tb, ws₃, hws₀, ha, hws₁, hws₂, hb, hws₃, rfl⟩ := h.exists_pair
    simp only [readPair, List.cons_append, List.append_assoc, List.nil_append]
    obtain ⟨q, hq⟩ := exists_readValue hws (c := '[') rfl p
      (ws₀ ++ (ta ++ (ws₁ ++ ',' :: (ws₂ ++ (tb ++ (ws₃ ++ ']' :: rest))))))
    obtain ⟨_, h₁⟩ := exists_nextElement_first hws₀ (q.after '[')
      (ws₁ ++ ',' :: (ws₂ ++ (tb ++ (ws₃ ++ ']' :: rest)))) ha
    obtain ⟨q₁, hq₁⟩ := exists_requiredElement hleft hx ha .pair 0 h₁
    obtain ⟨_, h₂⟩ := exists_nextElement_comma hws₁ q₁ (ws₃ ++ ']' :: rest) hws₂ hb
    obtain ⟨q₂, hq₂⟩ := exists_requiredElement hright hy hb .pair 1 h₂
    obtain ⟨q₃, hq₃⟩ := exists_closeArray hws₃ q₂ rest
    refine ⟨q₃, ?_⟩
    rw [hq, if_pos rfl]
    simp only [Cursor.pass, hq₁, hq₂, hq₃, bind, Except.bind]

/-! ## Objects -/

section Keys

variable {ws ws' : List Char} (hws : Spaces ws) (p : Position) (rest : List Char)
include hws

theorem exists_nextKey_close (first : Bool) :
    ∃ q, nextKey first ⟨p, ws ++ '\x7d' :: rest⟩ = .ok (none, ⟨q, '\x7d' :: rest⟩) := by
  obtain ⟨q, hq⟩ := exists_skip hws (c := '\x7d') rfl p rest
  exact ⟨q, by simp [nextKey, hq]⟩

theorem exists_nextKey_first {key : String} {name : List Char} (hkey : StringText key name) :
    ∃ q, nextKey true ⟨p, ws ++ (name ++ rest)⟩ = .ok (some key, ⟨q, rest⟩) := by
  obtain ⟨inner, rfl, hinner⟩ := hkey.exists_readStringRest
  obtain ⟨q, hq⟩ := exists_skip hws (c := '"') rfl p (inner ++ rest)
  obtain ⟨q', hq'⟩ := hinner (q.after '"') rest
  exact ⟨q', by simp [nextKey, hq, Cursor.pass, hq', bind, Except.bind]⟩

theorem exists_nextKey_comma (hws' : Spaces ws') {key : String} {name : List Char}
    (hkey : StringText key name) :
    ∃ q, nextKey false ⟨p, ws ++ ',' :: (ws' ++ (name ++ rest))⟩ = .ok (some key, ⟨q, rest⟩) := by
  obtain ⟨inner, rfl, hinner⟩ := hkey.exists_readStringRest
  obtain ⟨q, hq⟩ := exists_skip hws (c := ',') rfl p (ws' ++ '"' :: (inner ++ rest))
  obtain ⟨q', hq'⟩ := exists_skip hws' (c := '"') rfl (q.after ',') (inner ++ rest)
  obtain ⟨q'', hq''⟩ := hinner (q'.after '"') rest
  exact ⟨q'', by simp [nextKey, hq, hq', Cursor.pass, hq'', bind, Except.bind]⟩

theorem exists_passColon : ∃ q, passColon ⟨p, ws ++ ':' :: rest⟩ = .ok ⟨q, rest⟩ := by
  obtain ⟨q, hq⟩ := exists_skip hws (c := ':') rfl p rest
  exact ⟨q.after ':', by simp [passColon, hq, Cursor.pass]⟩

end Keys

theorem exists_afterBrace (p : Position) (rest : List Char) :
    ∃ q, afterBrace ⟨p, '\x7d' :: rest⟩ = ⟨q, rest⟩ := by
  obtain ⟨q, hq⟩ := exists_skip spaces_nil (c := '\x7d') rfl p rest
  rw [List.nil_append] at hq
  exact ⟨q.after '\x7d', by simp [afterBrace, hq, Cursor.pass]⟩

theorem exists_readMembers_close {κ β : Type} [DecidableEq κ] (members : Members κ β)
    {ws : List Char} (hws : Spaces ws) (first : Bool) (seen : List κ) (record : β) (rounds : Nat)
    (p : Position) (rest : List Char) :
    ∃ q, readMembers members (rounds + 1) first seen record ⟨p, ws ++ '\x7d' :: rest⟩ =
      .ok ((seen, record), ⟨q, rest⟩) := by
  obtain ⟨q, hq⟩ := exists_nextKey_close hws p rest first
  obtain ⟨q', hq'⟩ := exists_afterBrace q rest
  exact ⟨q', by simp [readMembers, hq, hq', bind, Except.bind]⟩

/-- The members of an object are read into a record that depends only on the keys
seen so far. -/
structure Members.Builds {κ β : Type} (members : Members κ β)
    (M : κ → String × Value → Prop) (build : List κ → β) : Prop where
  /-- a member is found by its key -/
  lookup_eq : ∀ {k : κ} {member : String × Value}, M k member →
    members.keys.lookup member.1 = some k
  /-- reading the value of a member adds the key to the record -/
  complete_read : ∀ (k : κ) (seen : List κ),
    Complete (fun v record => (∃ key, M k (key, v)) ∧ record = build (seen ++ [k]))
      (members.read k (build seen))

section Records

variable {κ β : Type} [DecidableEq κ] {members : Members κ β} {M : κ → String × Value → Prop}
  {build : List κ → β} (hbuilds : members.Builds M build)
include hbuilds

/-- One round reads one member. -/
theorem exists_readMembers_succ {k : κ} {key : String} {v : Value} {ws ws' text more : List Char}
    (hk : M k (key, v)) {seen : List κ} (hseen : k ∉ seen) (hws : Spaces ws) (hws' : Spaces ws')
    (hv : Written v text) {first : Bool} {c : Cursor} {p : Position}
    (hnext : nextKey first c = .ok (some key, ⟨p, ws ++ ':' :: (ws' ++ (text ++ more))⟩))
    (rounds : Nat) :
    ∃ q, readMembers members (rounds + 1) first seen (build seen) c =
      readMembers members rounds false (seen ++ [k]) (build (seen ++ [k])) ⟨q, more⟩ := by
  obtain ⟨q, hq⟩ := exists_passColon hws p (ws' ++ (text ++ more))
  obtain ⟨q', hq'⟩ := hbuilds.complete_read k seen ⟨⟨key, hk⟩, rfl⟩ hws' hv q more
  refine ⟨q', ?_⟩
  rw [readMembers, hnext]
  simp only [bind, Except.bind, hbuilds.lookup_eq hk, if_neg hseen, hq, hq']

/-- After one member, the further ones are read in as many rounds as there are, and one more. -/
theorem MoreItems.exists_readMembers {ms : List (String × Value)} {text : List Char}
    (h : MoreItems (MemberText Written) ms text) (seen : List κ) {ks : List κ}
    (hks : List.Forall₂ M ks ms) (hnodup : (seen ++ ks).Nodup) {rounds : Nat}
    (hrounds : ms.length ≤ rounds) (p : Position) (rest : List Char) :
    ∃ q, readMembers members (rounds + 1) false seen (build seen) ⟨p, text ++ '\x7d' :: rest⟩ =
      .ok ((seen ++ ks, build (seen ++ ks)), ⟨q, rest⟩) := by
  induction h generalizing ks seen rounds p with
  | nil hws =>
    obtain rfl := List.forall₂_nil_right_iff.1 hks
    rw [List.append_nil]
    exact exists_readMembers_close members hws false seen (build seen) rounds p rest
  | @cons _ ms ws ws' _ more hws hws' hmember _ ih =>
    obtain ⟨k, ks, hk, htail, rfl⟩ := List.forall₂_cons_right_iff.1 hks
    obtain ⟨rounds, rfl⟩ := Nat.exists_eq_succ_of_ne_zero (Nat.ne_zero_of_lt hrounds)
    have hseen : k ∉ seen := fun hmem =>
      (List.nodup_append.1 hnodup).2.2 k hmem k List.mem_cons_self rfl
    rw [List.append_cons seen k ks] at hnodup ⊢
    cases hmember with
    | @mk key v name ws₁ ws₂ text hkey hws₁ hws₂ hv =>
      obtain ⟨q, hq⟩ := exists_nextKey_comma hws p
        (ws₁ ++ ':' :: (ws₂ ++ (text ++ (more ++ '\x7d' :: rest)))) hws' hkey
      obtain ⟨q', hq'⟩ :=
        exists_readMembers_succ hbuilds hk hseen hws₁ hws₂ hv hq (rounds + 1)
      obtain ⟨q'', hq''⟩ := ih (seen ++ [k]) htail hnodup (Nat.le_of_succ_le_succ hrounds) q'
      refine ⟨q'', ?_⟩
      simp only [List.append_assoc, List.cons_append] at hq'' ⊢
      rw [hq', hq'']

theorem Items.exists_readMembers {ms : List (String × Value)} {text : List Char}
    (h : Items (MemberText Written) ms text) {ks : List κ} (hks : List.Forall₂ M ks ms)
    (hnodup : ks.Nodup) {rounds : Nat} (hrounds : ms.length ≤ rounds + 1) (p : Position)
    (rest : List Char) :
    ∃ q, readMembers members (rounds + 2) true [] (build []) ⟨p, text ++ '\x7d' :: rest⟩ =
      .ok ((ks, build ks), ⟨q, rest⟩) := by
  cases h with
  | nil hws =>
    obtain rfl := List.forall₂_nil_right_iff.1 hks
    exact exists_readMembers_close members hws true [] (build []) (rounds + 1) p rest
  | @cons _ ms ws _ more hws hmember hmore =>
    obtain ⟨k, ks, hk, htail, rfl⟩ := List.forall₂_cons_right_iff.1 hks
    cases hmember with
    | @mk key v name ws₁ ws₂ text hkey hws₁ hws₂ hv =>
      obtain ⟨q, hq⟩ := exists_nextKey_first hws p
        (ws₁ ++ ':' :: (ws₂ ++ (text ++ (more ++ '\x7d' :: rest)))) hkey
      obtain ⟨q', hq'⟩ :=
        exists_readMembers_succ hbuilds hk List.not_mem_nil hws₁ hws₂ hv hq (rounds + 1)
      obtain ⟨q'', hq''⟩ := hmore.exists_readMembers hbuilds [k] htail hnodup
        (Nat.le_of_succ_le_succ hrounds) q' rest
      refine ⟨q'', ?_⟩
      simp only [List.append_assoc, List.cons_append, List.nil_append] at hq' hq'' ⊢
      rw [hq', hq'']

/-- An object is read as a record if every one of its members is read, whatever their order. -/
theorem exists_readRecord {v : Value} {ks : List κ} (hv : v.IsObject M ks)
    (required : String × κ) (hrequired : required.2 ∈ ks) (expected : Expected)
    (positional : Step β) {ws text : List Char} (hws : Spaces ws) (htext : Written v text)
    (p : Position) (rest : List Char) :
    ∃ q, readRecord expected members required (build []) positional ⟨p, ws ++ (text ++ rest)⟩ =
      .ok (build ks, ⟨q, rest⟩) := by
  obtain ⟨ms, rfl, hnodup, hks⟩ := hv
  cases htext with
  | @object _ text h =>
    obtain ⟨q, hq⟩ := exists_readValue hws (c := '\x7b') rfl p (text ++ '\x7d' :: rest)
    have hrounds : ms.length ≤ (text ++ rest).length + 1 :=
      Nat.le_trans h.length_le (by simp)
    obtain ⟨q', hq'⟩ :=
      h.exists_readMembers hbuilds hks hnodup hrounds (q.after '\x7b') rest
    have hlength : (text ++ '\x7d' :: rest).length = (text ++ rest).length + 1 := by
      simp only [List.length_append, List.length_cons]
      omega
    refine ⟨q', ?_⟩
    rw [readRecord, List.cons_append, List.append_assoc, List.singleton_append, hq]
    simp only [if_true, Cursor.pass, hlength, hq', bind, Except.bind, if_pos hrequired]

end Records

/-! ## The end of a document -/

theorem finish_spaces {ws : List Char} (hws : Spaces ws) (p : Position) :
    finish ⟨p, ws⟩ = .ok () := by
  have hrest : (Cursor.skip ⟨p, ws⟩).rest = [] := by
    rw [Cursor.rest_skip, List.dropWhile_eq_nil_iff]
    exact fun c hc => isSpace_iff.2 (hws c hc)
  simp only [finish, hrest]

/-- A complete step reads the whole text of a document. -/
theorem Complete.exists_document {α : Type} {R : Value → α → Prop} {step : Step α}
    (h : Complete R step) {v : Value} {x : α} (hx : R v x) {text : List Char}
    (htext : WrittenDocument v text) (p : Position) :
    ∃ c, step ⟨p, text⟩ = .ok (x, c) ∧ finish c = .ok () := by
  obtain ⟨ws, inner, ws', hws, hinner, hws', rfl⟩ := htext
  obtain ⟨q, hq⟩ := h hx hws hinner p ws'
  exact ⟨_, hq, finish_spaces hws' q⟩

end TreeHeaders.Json
