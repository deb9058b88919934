import TreeHeaders.CommandLine.Options
import TreeHeaders.Proofs.HeaderLines

set_option autoImplicit false

/-!
# Accepted command lines

What a command line that is not refused asks for. A namespace or an extension is only taken from
the arguments once it is judged, and every argument keeps what is taken so far, so the
configuration is one of which headers can be generated (`accepted_of_parse`). The two flags
exclude each other (`not_dryrun_of_check`).
-/

namespace TreeHeaders.CommandLine

theorem judge_eq_ok {α : Type} {argument : Argument} {parse : String → Except Refusal α}
    {value : String} {x : α} (h : judge argument parse value = .ok x) : parse value = .ok x := by
  unfold judge at h
  cases hparse : parse value with
  | ok y => simpa [hparse] using h
  | error e => cases e <;> simp [hparse] at h

theorem judgeOnce_eq_ok {α : Type} {s : Setting} {before : Option α}
    {parse : String → Except Refusal α} {value : String} {x : α}
    (h : judgeOnce s before parse value = .ok x) : parse value = .ok x := by
  cases before with
  | some _ => exact absurd h (by simp [judgeOnce])
  | none => exact judge_eq_ok h

theorem parseNamespace_eq_ok {text name : String} (h : parseNamespace text = .ok name) :
    isNamespace name = true := by
  unfold parseNamespace at h
  split at h
  · next hname => simpa [← Except.ok.inj h] using hname
  · exact absurd h (by simp)

theorem parseExtension_eq_ok {text extension : String}
    (h : parseExtension text = .ok extension) : isExtension extension = true := by
  unfold parseExtension at h
  split at h
  · next hextension => simpa [← Except.ok.inj h] using hextension
  · exact absurd h (by simp)

/-! ## What is taken from the arguments -/

/-- The namespace and the extension, if they are given, are accepted ones. -/
structure Given.Accepted (given : Given) : Prop where
  namespaceName : ∀ name ∈ given.namespaceName, isNamespace name = true
  extension : ∀ extension ∈ given.extension, isExtension extension = true

namespace Given.Accepted

variable {given after : Given}

theorem set (h : given.Accepted) {s : Setting} {value : String}
    (hset : given.set s value = .ok after) : after.Accepted := by
  cases s with
  | schema =>
    obtain ⟨path, -, hafter⟩ := bind_eq_ok_iff.1 hset
    obtain rfl := Except.ok.inj hafter
    exact ⟨h.namespaceName, h.extension⟩
  | namespaceName =>
    obtain ⟨name, hname, hafter⟩ := bind_eq_ok_iff.1 hset
    obtain rfl := Except.ok.inj hafter
    refine ⟨?_, h.extension⟩
    intro other hother
    obtain rfl := Option.some.inj hother
    exact parseNamespace_eq_ok (judgeOnce_eq_ok hname)
  | indentSize =>
    obtain ⟨size, -, hafter⟩ := bind_eq_ok_iff.1 hset
    obtain rfl := Except.ok.inj hafter
    exact ⟨h.namespaceName, h.extension⟩
  | lineEnding =>
    obtain ⟨ending, -, hafter⟩ := bind_eq_ok_iff.1 hset
    obtain rfl := Except.ok.inj hafter
    exact ⟨h.namespaceName, h.extension⟩
  | extension =>
    obtain ⟨extension, hextension, hafter⟩ := bind_eq_ok_iff.1 hset
    obtain rfl := Except.ok.inj hafter
    refine ⟨h.namespaceName, ?_⟩
    intro other hother
    obtain rfl := Option.some.inj hother
    exact parseExtension_eq_ok (judgeOnce_eq_ok hextension)

theorem settle (h : given.Accepted) {pending : Pending}
    (hsettle : given.settle pending = .ok after) : after.Accepted := by
  match pending with
  | .nothing =>
    obtain rfl := Except.ok.inj hsettle
    exact h
  | .directory value =>
    obtain ⟨path, -, hafter⟩ := bind_eq_ok_iff.1 hsettle
    obtain rfl := Except.ok.inj hafter
    exact ⟨h.namespaceName, h.extension⟩
  | .setting s none => exact absurd hsettle (by simp [Given.settle])
  | .setting s (some value) => exact h.set hsettle

theorem raise (h : given.Accepted) {f : Flag} (hraise : given.raise f = .ok after) :
    after.Accepted := by
  unfold Given.raise at hraise
  split at hraise
  · exact absurd hraise (by simp)
  · obtain rfl := Except.ok.inj hraise
    exact ⟨h.namespaceName, h.extension⟩

end Given.Accepted

/-! ## One argument after the other -/

namespace Progress

variable {p q : Progress}

theorem accepted_settle (hp : p.given.Accepted) (h : p.settle = .ok q) : q.given.Accepted := by
  obtain ⟨given, hgiven, hq⟩ := bind_eq_ok_iff.1 h
  obtain rfl := Except.ok.inj hq
  exact hp.settle hgiven

theorem accepted_meet (hp : p.given.Accepted) {option : Switch} {long : Bool}
    (h : p.meet option long = .ok q) : q.given.Accepted := by
  obtain ⟨settled, hsettled, hmeet⟩ := bind_eq_ok_iff.1 h
  have haccepted := accepted_settle hp hsettled
  cases option with
  | flag f =>
    obtain ⟨given, hgiven, hq⟩ := bind_eq_ok_iff.1 hmeet
    obtain rfl := Except.ok.inj hq
    exact haccepted.raise hgiven
  | verbose =>
    obtain rfl := Except.ok.inj hmeet
    exact ⟨haccepted.namespaceName, haccepted.extension⟩
  | help => exact absurd hmeet (by simp)
  | version => exact absurd hmeet (by simp)

theorem accepted_meetLong (hp : p.given.Accepted) {name : String} {value : Option String}
    (h : p.meetLong name value = .ok q) : q.given.Accepted := by
  unfold meetLong at h
  split at h
  · obtain ⟨settled, hsettled, hset⟩ := bind_eq_ok_iff.1 h
    obtain ⟨given, hgiven, hq⟩ := bind_eq_ok_iff.1 hset
    obtain rfl := Except.ok.inj hq
    exact (accepted_settle hp hsettled).set hgiven
  · obtain ⟨settled, hsettled, hq⟩ := bind_eq_ok_iff.1 h
    obtain rfl := Except.ok.inj hq
    have haccepted := accepted_settle hp hsettled
    exact ⟨haccepted.namespaceName, haccepted.extension⟩
  · exact absurd h (by simp)
  · exact accepted_meet hp h
  · exact absurd h (by simp)

theorem accepted_meetShort (hp : p.given.Accepted) {letters : List Char}
    (h : p.meetShort letters = .ok q) : q.given.Accepted := by
  induction letters generalizing p with
  | nil =>
    obtain rfl := Except.ok.inj h
    exact hp
  | cons c cs ih =>
    unfold meetShort at h
    split at h
    · exact absurd h (by simp)
    · obtain ⟨next, hnext, hrest⟩ := bind_eq_ok_iff.1 h
      exact ih (accepted_meet hp hnext) hrest

theorem accepted_meetPositional (hp : p.given.Accepted) {text : String}
    (h : p.meetPositional text = .ok q) : q.given.Accepted := by
  unfold meetPositional at h
  split at h
  · exact absurd h (by simp)
  · obtain ⟨settled, hsettled, hq⟩ := bind_eq_ok_iff.1 h
    obtain rfl := Except.ok.inj hq
    have haccepted := accepted_settle hp hsettled
    exact ⟨haccepted.namespaceName, haccepted.extension⟩

theorem accepted_meetValue (hp : p.given.Accepted) {text : String}
    (h : p.meetValue text = .ok q) : q.given.Accepted := by
  unfold meetValue at h
  split at h
  · obtain rfl := Except.ok.inj h
    exact hp
  · exact accepted_meetPositional hp h

/-- No argument spoils what is taken from those before it. -/
theorem accepted_step (hp : p.given.Accepted) {text : String} (h : p.step text = .ok q) :
    q.given.Accepted := by
  -- after `--` there are only positional arguments; before it come `--` itself, long options,
  -- letters and values, in this order
  unfold step at h
  split at h
  · exact accepted_meetPositional hp h
  · split at h
    · split at h
      · split at h
        · obtain rfl := Except.ok.inj h
          exact hp
        · exact accepted_meetLong hp h
      · split at h
        · exact accepted_meetShort hp h
        · exact accepted_meetValue hp h
    · exact accepted_meetValue hp h

theorem accepted_steps (hp : p.given.Accepted) {args : List String} (h : p.steps args = .ok q) :
    q.given.Accepted := by
  induction args generalizing p with
  | nil => exact accepted_settle hp h
  | cons text rest ih =>
    obtain ⟨next, hnext, hrest⟩ := bind_eq_ok_iff.1 h
    exact ih (accepted_step hp hnext) hrest

end Progress

/-! ## The options -/

variable {args : List String} {options : Options}

/-- What is given as a whole, if it is not refused. -/
theorem Given.finish_eq_ok {given : Given} (h : given.finish = .ok options) :
    given.flags.length ≤ 1 ∧ options.dryrun = given.flags.contains .dryrun ∧
      options.check = given.flags.contains .check ∧
      options.config.namespaceName = given.namespaceName.getD ({} : Config).namespaceName ∧
      options.config.extension = given.extension.getD ({} : Config).extension := by
  unfold finish at h
  split at h
  · exact absurd h (by simp)
  · exact absurd h (by simp)
  · next hflags =>
    obtain rfl := Except.ok.inj h
    refine ⟨?_, rfl, rfl, rfl, rfl⟩
    cases hgiven : given.flags with
    | nil => simp
    | cons first rest =>
      cases rest with
      | nil => simp
      | cons second rest => exact (hflags first second rest hgiven).elim

/-- A configuration that is read from a command line is an accepted one. -/
theorem accepted_of_parse (h : parse args = .ok options) : options.config.Accepted := by
  obtain ⟨p, hp, hfinish⟩ := bind_eq_ok_iff.1 h
  have haccepted : p.given.Accepted := Progress.accepted_steps ⟨by simp, by simp⟩ hp
  obtain ⟨-, -, -, hname, hextension⟩ := Given.finish_eq_ok hfinish
  constructor
  · rw [hname]
    cases hgiven : p.given.namespaceName with
    | none => decide
    | some name => exact haccepted.namespaceName name hgiven
  · rw [hextension]
    cases hgiven : p.given.extension with
    | none => decide
    | some extension => exact haccepted.extension extension hgiven

/-- Headers are not previewed if they are to be checked. -/
theorem not_dryrun_of_check (h : parse args = .ok options) (hcheck : options.check = true) :
    options.dryrun = false := by
  obtain ⟨p, -, hfinish⟩ := bind_eq_ok_iff.1 h
  obtain ⟨hlength, hdryrun, hflag, -⟩ := Given.finish_eq_ok hfinish
  rw [hflag, List.contains_iff_mem] at hcheck
  obtain ⟨f, hf⟩ : ∃ f, p.given.flags = [f] :=
    List.length_eq_one_iff.1 (Nat.le_antisymm hlength (List.length_pos_of_mem hcheck))
  obtain rfl : Flag.check = f := by simpa [hf] using hcheck
  rw [hdryrun, hf]
  rfl

end TreeHeaders.CommandLine
