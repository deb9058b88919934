set_option autoImplicit false

/-!
# Plain text

What is left of a text on a stream that is not a terminal. Control sequences are dropped, and so
are the control characters other than tab, line feed, form feed and carriage return.

A sequence starts with an escape character. `Sequence` says how far one has been read. White
space inside an unfinished sequence is shown, and what follows it is read as text again, up to
the next control character, where the unfinished sequence is taken up once more.
-/

namespace TreeHeaders.Text

/-- How far a control sequence has been read. -/
inductive Sequence where
  /-- not in a sequence -/
  | outside
  /-- after the escape character -/
  | escape
  /-- an escape sequence with intermediate characters -/
  | escapeIntermediate
  /-- after the introducer of a control sequence -/
  | controlEntry
  /-- in the parameters of a control sequence -/
  | controlParameter
  /-- in the intermediate characters of a control sequence -/
  | controlIntermediate
  /-- in a malformed control sequence -/
  | controlIgnore
  /-- after the introducer of a device control string -/
  | deviceEntry
  /-- in the parameters of a device control string -/
  | deviceParameter
  /-- in the intermediate characters of a device control string -/
  | deviceIntermediate
  /-- in a malformed device control string -/
  | deviceIgnore
  /-- in the data of a device control string -/
  | deviceData
  /-- in an operating system command -/
  | systemCommand
  /-- in a string that no terminal shows -/
  | hiddenString
  deriving DecidableEq, Repr, Inhabited

namespace Sequence

/-- Does the sequence let control characters through? -/
def obeysControls : Sequence → Bool
  | .outside | .escape | .escapeIntermediate => true
  | .controlEntry | .controlParameter | .controlIntermediate | .controlIgnore => true
  | _ => false

/-- The sequence after one more character of the range `!` to `~`, or a space, inside it. -/
def afterVisible (c : Char) : Sequence → Sequence
  | .outside => .outside
  | .escape =>
    if c ≤ '/' then .escapeIntermediate
    else if c = '[' then .controlEntry
    else if c = ']' then .systemCommand
    else if c = 'P' then .deviceEntry
    else if c = 'X' ∨ c = '^' ∨ c = '_' then .hiddenString
    else .outside
  | .escapeIntermediate => if c ≤ '/' then .escapeIntermediate else .outside
  | .controlEntry =>
    if c ≤ '/' then .controlIntermediate else if c ≤ '?' then .controlParameter else .outside
  | .controlParameter =>
    if c ≤ '/' then .controlIntermediate
    else if c ≤ ';' then .controlParameter
    else if c ≤ '?' then .controlIgnore
    else .outside
  | .controlIntermediate =>
    if c ≤ '/' then .controlIntermediate else if c ≤ '?' then .controlIgnore else .outside
  | .controlIgnore => if c ≤ '?' then .controlIgnore else .outside
  | .deviceEntry =>
    if c ≤ '/' then .deviceIntermediate else if c ≤ '?' then .deviceParameter else .deviceData
  | .deviceParameter =>
    if c ≤ '/' then .deviceIntermediate
    else if c ≤ ';' then .deviceParameter
    else if c ≤ '?' then .deviceIgnore
    else .deviceData
  | .deviceIntermediate =>
    if c ≤ '/' then .deviceIntermediate else if c ≤ '?' then .deviceIgnore else .deviceData
  | .deviceIgnore => .deviceIgnore
  | .deviceData => .deviceData
  | .systemCommand => .systemCommand
  | .hiddenString => .hiddenString

/-- Is one of the bytes that encode the character the string terminator `0x9c`? -/
def hasTerminatorByte (c : Char) : Bool :=
  (String.singleton c).toUTF8.toList.contains 0x9c

/-- The sequence after a character beyond ASCII inside it: a string can end in
the middle of it. -/
def afterWide (c : Char) : Sequence → Sequence
  | .deviceIgnore => if hasTerminatorByte c then .outside else .deviceIgnore
  | .deviceData => if hasTerminatorByte c then .outside else .deviceData
  | .hiddenString => if hasTerminatorByte c then .outside else .hiddenString
  | s => s

end Sequence

/-- The control characters that are shown. -/
def isShownControl (c : Char) : Bool :=
  c = '\t' || c = '\n' || c = '\x0c' || c = '\r'

/-- Does the character end or restart any sequence? -/
def isInterrupt (c : Char) : Bool :=
  c = '\x18' || c = '\x1a' || c = '\x1b'

/-- Is the character shown as text? -/
def isShown (c : Char) : Bool :=
  isShownControl c || (' ' ≤ c && c ≠ '\x7f')

/-- Read on, either as text (`true`) or inside a sequence (`false`). -/
def plainChars : Bool → Sequence → List Char → List Char
  | _, _, [] => []
  | showing, s, c :: cs =>
    if showing && isShown c then
      c :: plainChars true (if c.toNat < 0x80 then s else .outside) cs
    else if c = '\x1b' then plainChars false .escape cs
    else if isInterrupt c then plainChars false .outside cs
    else if c.toNat < 0x20 then
      if isShownControl c && s.obeysControls then c :: plainChars true s cs
      else if c = '\x07' && s = .systemCommand then plainChars false .outside cs
      else plainChars false s cs
    else if c = '\x7f' then plainChars false s cs
    else if s = .outside then c :: plainChars true .outside cs
    else if c.toNat < 0x80 then plainChars false (s.afterVisible c) cs
    else plainChars false (s.afterWide c) cs

/-- The text without control sequences and without the control characters that are not shown. -/
def plain (text : String) : String :=
  String.ofList (plainChars false .outside text.toList)

/-- Showing text that has no control characters changes nothing. -/
theorem plainChars_eq_self {cs : List Char} (h : ∀ c ∈ cs, isShown c = true) (s : Sequence) :
    plainChars true s cs = cs := by
  induction cs generalizing s with
  | nil => rfl
  | cons c cs ih =>
    have hc := h c (by simp)
    simp [plainChars, hc, ih (fun d hd => h d (by simp [hd]))]

/-- A text without control characters is plain already. -/
theorem plain_eq_self {text : String} (h : ∀ c ∈ text.toList, isShown c = true) :
    plain text = text := by
  suffices hp : plainChars false .outside text.toList = text.toList by
    rw [plain, hp, String.ofList_toList]
  cases hl : text.toList with
  | nil => rfl
  | cons c cs =>
    rw [hl] at h
    have hc := h c (by simp)
    have hrest (s : Sequence) := @plainChars_eq_self cs (fun d hd => h d (by simp [hd])) s
    by_cases hctl : isShownControl c = true
    · have hne : c ≠ '\x1b' ∧ isInterrupt c = false ∧ c.toNat < 0x20 := by
        simp only [isShownControl, Bool.or_eq_true, decide_eq_true_eq] at hctl
        rcases hctl with ((rfl | rfl) | rfl) | rfl <;> decide
      simp [plainChars, hne, hctl, Sequence.obeysControls, hrest]
    · have hge : ' ' ≤ c ∧ c ≠ '\x7f' := by simpa [isShown, hctl] using hc
      have hn : ¬ c.toNat < 0x20 := by
        have h20 : 32 ≤ c.toNat := hge.1
        omega
      have hesc : c ≠ '\x1b' ∧ isInterrupt c = false := by
        constructor
        · rintro rfl
          exact hn (by decide)
        · simp only [isInterrupt, Bool.or_eq_false_iff, decide_eq_false_iff_not]
          refine ⟨⟨?_, ?_⟩, ?_⟩ <;> rintro rfl <;> exact hn (by decide)
      simp [plainChars, hesc, hn, hge.2, hrest]

end TreeHeaders.Text
