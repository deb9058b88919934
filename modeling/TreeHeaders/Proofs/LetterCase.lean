import TreeHeaders.Identifier

set_option autoImplicit false

/-!
# Lower and upper case

The two cases of an ASCII letter are 32 code points apart, and every other character is the same
in both. So what can stand in a name can do so in either case, and `_` is the case of no letter.

No module of Mathlib has lemmas on the case of letters, so it is worked out here on code points.
-/

namespace TreeHeaders.Identifier

variable {c : Char}

/-! ## Code points -/

theorem isAlpha_iff : c.isAlpha = true ↔ c.isUpper = true ∨ c.isLower = true :=
  Bool.or_eq_true_iff

theorem isUpper_iff_toNat : c.isUpper = true ↔ 65 ≤ c.toNat ∧ c.toNat ≤ 90 :=
  decide_eq_true_iff

theorem isLower_iff_toNat : c.isLower = true ↔ 97 ≤ c.toNat ∧ c.toNat ≤ 122 :=
  Bool.and_eq_true_iff.trans (and_congr decide_eq_true_iff decide_eq_true_iff)

theorem toNat_toLower (c : Char) :
    c.toLower.toNat = if c.isUpper = true then c.toNat + 32 else c.toNat := by
  split
  · next hupper =>
    obtain ⟨hge, hle⟩ := isUpper_iff_toNat.1 hupper
    obtain ⟨_, hlower⟩ : ∃ valid, c.toLower = ⟨c.val + ('a'.val - 'A'.val), valid⟩ :=
      ⟨_, dif_pos ⟨hge, hle⟩⟩
    rw [hlower, ← Char.toNat_val, UInt32.toNat_add, Char.toNat_val]
    simp
    omega
  · next hupper =>
    have hsame : c.toLower = c := dif_neg fun h => hupper (isUpper_iff_toNat.2 h)
    rw [hsame]

theorem toNat_toUpper (c : Char) :
    c.toUpper.toNat = if c.isLower = true then c.toNat - 32 else c.toNat := by
  split
  · next hlower =>
    obtain ⟨hge, hle⟩ := isLower_iff_toNat.1 hlower
    obtain ⟨_, hupper⟩ : ∃ valid, c.toUpper = ⟨c.val + ('A'.val - 'a'.val), valid⟩ :=
      ⟨_, dif_pos ⟨hge, hle⟩⟩
    rw [hupper, ← Char.toNat_val, UInt32.toNat_add, Char.toNat_val]
    simp
    omega
  · next hlower =>
    have hsame : c.toUpper = c := dif_neg fun h => hlower (isLower_iff_toNat.2 h)
    rw [hsame]

/-! ## Letters -/

/-- A capital becomes a small letter, and any other character is in lower case already. -/
theorem toLower_cases (c : Char) :
    c.isUpper = false ∧ c.toLower = c ∨ c.isUpper = true ∧ c.toLower.isLower = true := by
  have hnat := toNat_toLower c
  cases h : c.isUpper with
  | false =>
    rw [h, if_neg (by decide)] at hnat
    exact Or.inl ⟨rfl, Char.toNat_inj.1 hnat⟩
  | true =>
    rw [h, if_pos rfl] at hnat
    obtain ⟨hge, hle⟩ := isUpper_iff_toNat.1 h
    exact Or.inr ⟨rfl, isLower_iff_toNat.2 (by omega)⟩

/-- A small letter becomes a capital, and any other character is in upper case already. -/
theorem toUpper_cases (c : Char) :
    c.isLower = false ∧ c.toUpper = c ∨ c.isLower = true ∧ c.toUpper.isUpper = true := by
  have hnat := toNat_toUpper c
  cases h : c.isLower with
  | false =>
    rw [h, if_neg (by decide)] at hnat
    exact Or.inl ⟨rfl, Char.toNat_inj.1 hnat⟩
  | true =>
    rw [h, if_pos rfl] at hnat
    obtain ⟨hge, hle⟩ := isLower_iff_toNat.1 h
    exact Or.inr ⟨rfl, isUpper_iff_toNat.2 (by omega)⟩

theorem isUpper_toLower (c : Char) : c.toLower.isUpper = false := by
  rcases toLower_cases c with ⟨hupper, hsame⟩ | ⟨-, hlower⟩
  · rwa [hsame]
  · rw [isLower_iff_toNat] at hlower
    rw [Bool.eq_false_iff, ne_eq, isUpper_iff_toNat]
    omega

theorem isUpper_toUpper (h : c.isAlpha = true) : c.toUpper.isUpper = true := by
  rcases toUpper_cases c with ⟨hlower, hsame⟩ | ⟨-, hupper⟩
  · rw [hsame]
    simpa [isAlpha_iff, hlower] using h
  · exact hupper

/-- Disregarding case in capitals or in small letters is the same. -/
theorem toUpper_eq_toUpper_iff {d : Char} : c.toUpper = d.toUpper ↔ c.toLower = d.toLower := by
  rw [← Char.toNat_inj, ← Char.toNat_inj]
  simp only [toNat_toUpper, toNat_toLower, isUpper_iff_toNat, isLower_iff_toNat]
  grind

theorem map_toUpper_eq_iff {xs ys : List Char} :
    xs.map Char.toUpper = ys.map Char.toUpper ↔ xs.map Char.toLower = ys.map Char.toLower := by
  induction xs generalizing ys with
  | nil => simp
  | cons x xs ih =>
    cases ys with
    | nil => simp
    | cons y ys => simp [toUpper_eq_toUpper_iff, ih]

/-! ## Characters of names -/

theorem isPart_of_isAlpha (h : c.isAlpha = true) : isPart c = true := by
  simp [isPart, Char.isAlphanum, h]

theorem isPart_of_isDigit (h : c.isDigit = true) : isPart c = true := by
  simp [isPart, Char.isAlphanum, h]

theorem isPart_toLower (h : isPart c = true) : isPart c.toLower = true := by
  rcases toLower_cases c with ⟨-, hsame⟩ | ⟨-, hlower⟩
  · rwa [hsame]
  · exact isPart_of_isAlpha (isAlpha_iff.2 (Or.inr hlower))

theorem isStart_toLower (h : isStart c = true) : isStart c.toLower = true := by
  rcases toLower_cases c with ⟨-, hsame⟩ | ⟨-, hlower⟩
  · rwa [hsame]
  · simp [isStart, isAlpha_iff.2 (Or.inr hlower)]

theorem toLower_eq_underscore_iff : c.toLower = '_' ↔ c = '_' := by
  rcases toLower_cases c with ⟨-, hsame⟩ | ⟨hupper, hlower⟩
  · rw [hsame]
  · constructor
    · intro hunderscore
      rw [hunderscore] at hlower
      exact absurd hlower (by decide)
    · rintro rfl
      exact absurd hupper (by decide)

/-- A letter or digit is a capital or a digit in upper case. -/
theorem isUpper_or_isDigit_toUpper (h : c.isAlphanum = true) :
    c.toUpper.isUpper = true ∨ c.toUpper.isDigit = true := by
  rcases toUpper_cases c with ⟨hlower, hsame⟩ | ⟨-, hupper⟩
  · rw [hsame]
    simpa [Char.isAlphanum, isAlpha_iff, hlower] using h
  · exact Or.inl hupper

theorem isPart_toUpper (h : c.isAlphanum = true) : isPart c.toUpper = true := by
  rcases isUpper_or_isDigit_toUpper h with hupper | hdigit
  · exact isPart_of_isAlpha (isAlpha_iff.2 (Or.inl hupper))
  · exact isPart_of_isDigit hdigit

theorem toUpper_ne_underscore (h : c.isAlphanum = true) : c.toUpper ≠ '_' := by
  intro hunderscore
  have hcases := isUpper_or_isDigit_toUpper h
  rw [hunderscore] at hcases
  exact absurd hcases (by decide)

end TreeHeaders.Identifier
