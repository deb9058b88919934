import TreeHeaders.Proofs.Drift

set_option autoImplicit false

/-!
# Publishing that is stopped

Headers are written one after the other, and the first one that cannot be written stops it.
Nothing is undone then, so the directory is left half published. Which half that is can be told
from the error: the headers before the one that it names are published, and every other file is
as it was (`Catalogue.interrupted_publication`). What carries this is that stopped writing
leaves what writing the headers before leaves (`FileSystem.exists_stop_of_written`), and that no
two headers share a place.
-/

namespace TreeHeaders

/-- The contents, if it is a file. -/
def Kind.contents? : Kind → Option ByteArray
  | .file contents => some contents
  | .directory => none

/-! ## Headers before and after one -/

namespace Publishable

variable {before rest : List Header}

theorem of_append_left (h : Publishable (before ++ rest)) : Publishable before := by
  refine ⟨fun header hheader => h.isNamed header (List.mem_append_left rest hheader), ?_⟩
  have hnodup := h.nodup
  rw [List.map_append] at hnodup
  exact hnodup.of_append_left

/-- A header is not published to the place of one before it. -/
theorem place_notMem (h : Publishable (before ++ rest)) {header : Header} (hheader : header ∈ rest)
    (directory : String) : header.place directory ∉ before.map (Header.place directory) := by
  intro hmem
  obtain ⟨earlier, hearlier, hplace⟩ := List.mem_map.1 hmem
  obtain rfl : earlier = header :=
    h.place_inj (List.mem_append_left rest hearlier) (List.mem_append_right before hheader) hplace
  have hnodup := h.nodup
  rw [List.map_append] at hnodup
  exact List.disjoint_of_nodup_append hnodup (List.mem_map_of_mem hearlier)
    (List.mem_map_of_mem hheader)

end Publishable

/-! ## What is left -/

namespace FileSystem

variable {fs after : FileSystem} {directory : String} {headers : List Header} {e : PublishError}

/-- The contents of the file at a place, if there is one. -/
def contents? (fs : FileSystem) (place : Place) : Option ByteArray :=
  (fs.kind? place).bind Kind.contents?

theorem contents?_congr {q : Place} (h : after.kind? q = fs.kind? q) :
    after.contents? q = fs.contents? q := by
  rw [contents?, contents?, h]

/-- Where only directories appear, no file changes. -/
theorem GrowsBy.contents?_eq {places : Place → Prop} (h : fs.GrowsBy after places) (q : Place) :
    after.contents? q = fs.contents? q := by
  rcases h q with hsame | ⟨hnone, hdirectory, -⟩
  · exact contents?_congr hsame
  · rw [contents?, contents?, hnone, hdirectory]
    rfl

/-- Writing headers changes no file but those of the headers. -/
theorem contents?_written {q : Place} (h : q ∉ headers.map (Header.place directory)) :
    (fs.written directory headers).2.contents? q = fs.contents? q := by
  rcases written_changes fs directory headers q with hsame | ⟨header, hheader, rfl, -⟩
  · exact contents?_congr hsame
  · exact absurd (List.mem_map_of_mem hheader) h

/-- Writing is stopped at one of the headers. Those before it are written, and nothing is done
for it and those after it. -/
theorem exists_stop_of_written (h : (fs.written directory headers).1.failure = some e) :
    ∃ before header after cause, headers = before ++ header :: after ∧
      e = .write (header.path directory) cause ∧
      (fs.written directory before).1.failure = none ∧
      (fs.written directory headers).2 = (fs.written directory before).2 := by
  induction headers generalizing fs with
  | nil => exact absurd h (Option.some_ne_none e).symm
  | cons first rest ih =>
    cases hwrite : fs.write (first.path directory) first.contents.toUTF8 with
    | error cause =>
      rw [written_cons, hwrite] at h
      refine ⟨[], first, rest, cause, rfl, (Option.some.inj h).symm, rfl, ?_⟩
      rw [written_cons, hwrite]
      rfl
    | ok next =>
      rw [written_cons, hwrite] at h
      obtain ⟨before, header, after, cause, rfl, he, hbefore, hleft⟩ := ih h
      refine ⟨first :: before, header, after, cause, rfl, he, ?_, ?_⟩
      · rw [written_cons, hwrite]
        exact hbefore
      · rw [written_cons, written_cons, hwrite]
        exact hleft

/-- Publishing is stopped when its directory cannot be made, or by writing into the
directory once it is made. -/
theorem exists_stop_of_published (h : (fs.published directory headers).1.failure = some e) :
    (∃ cause, e = .createDirectory directory cause ∧
      (fs.published directory headers).2 = (fs.createDirectories directory).2) ∨
    ∃ made, fs.createDirectories directory = (.ok (), made) ∧
      (made.written directory headers).1.failure = some e ∧
      (fs.published directory headers).2 = (made.written directory headers).2 := by
  rw [published_eq] at h ⊢
  rcases hcreated : fs.createDirectories directory with ⟨result, made⟩
  rw [hcreated] at h
  cases result with
  | error cause => exact Or.inl ⟨cause, (Option.some.inj h).symm, rfl⟩
  | ok _ => exact Or.inr ⟨made, rfl, h, rfl⟩

end FileSystem

theorem Publication.result_eq_error_iff {p : Publication} {e : PublishError} :
    p.result = .error e ↔ p.failure = some e := by
  unfold result
  cases p.failure with
  | none => simp
  | some cause => simp

namespace Catalogue

/-- If publishing the headers of a catalogue is stopped, then either its directory could not be
made, and no file has changed, or the directory is there and one header could not be written:
those before it are published, and every other file is as it was, be it that of a header or not.

The file systems have no permissions and no links: a file that cannot be opened is one whose
place is taken by a directory, has a file on the way to it, or has too long a name. A place is
known by one spelling of its path. -/
theorem interrupted_publication {ds : List FamilyDeclaration} {c : Catalogue}
    (h : load ds = .ok c) {config : Config}
    (he : CommandLine.isExtension config.extension = true) {directory : String} {fs : FileSystem}
    {e : PublishError}
    (hstopped : (fs.published directory (c.headers config)).1.result = .error e) :
    (∃ cause, e = .createDirectory directory cause ∧
      ∀ q, (fs.published directory (c.headers config)).2.contents? q = fs.contents? q) ∨
    ∃ before header after cause, c.headers config = before ++ header :: after ∧
      e = .write (header.path directory) cause ∧
      (fs.published directory (c.headers config)).2.Leads
        (Path.origin (Path.within directory)) (Path.within directory) ∧
      (∀ earlier ∈ before, (fs.published directory (c.headers config)).2.read
        (earlier.path directory) = .ok earlier.contents.toUTF8) ∧
      (∀ other ∈ header :: after,
        (fs.published directory (c.headers config)).2.contents? (other.place directory) =
          fs.contents? (other.place directory)) ∧
      ∀ q, q ∉ before.map (Header.place directory) →
        (fs.published directory (c.headers config)).2.contents? q = fs.contents? q := by
  have hp := publishable_headers h he
  have hmade := (fs.createDirectories_growsBy directory).contents?_eq
  rw [Publication.result_eq_error_iff] at hstopped
  rcases FileSystem.exists_stop_of_published hstopped with
    ⟨cause, rfl, hleft⟩ | ⟨made, hcreated, hfailure, hleft⟩
  · refine Or.inl ⟨cause, rfl, ?_⟩
    rw [hleft]
    exact hmade
  · right
    obtain ⟨before, header, after, cause, hsplit, rfl, hbefore, hprefix⟩ :=
      FileSystem.exists_stop_of_written hfailure
    have hdirectory := FileSystem.leads_within_of_createDirectories (congrArg Prod.fst hcreated)
    rw [hcreated] at hmade hdirectory
    rw [hleft, hprefix]
    rw [hsplit] at hp ⊢
    have hother : ∀ q, q ∉ before.map (Header.place directory) →
        (made.written directory before).2.contents? q = fs.contents? q := fun q hq =>
      (FileSystem.contents?_written hq).trans (hmade q)
    obtain ⟨-, hholds⟩ := FileSystem.holds_written hp.of_append_left hbefore
    refine ⟨before, header, after, cause, rfl, rfl, ?_, ?_, ?_, hother⟩
    · exact hdirectory.mono fun _ hq => FileSystem.isDirectory_written hq
    · exact fun earlier hearlier => hholds.read hearlier
    · exact fun other hmem => hother _ (hp.place_notMem hmem directory)

/-- A directory in which there is a directory of its own where the statements belong. -/
def obstructed : FileSystem :=
  (FileSystem.empty.createDirectories "out/Stmt.h").2

/-- Publishing expressions and statements there is stopped at the statements. -/
theorem published_obstructed {first second : Header} (hfirst : first.path "out" = "out/Expr.h")
    (hsecond : second.path "out" = "out/Stmt.h") :
    (obstructed.published "out" [first, second]).1.result =
      .error (.write "out/Stmt.h" .isDirectory) := by
  obtain ⟨hmade, hwrite⟩ : obstructed.createDirectories "out" = (.ok (), obstructed) ∧
      ∀ bytes, ∃ after, obstructed.write "out/Expr.h" bytes = .ok after ∧
        ∀ bytes, after.write "out/Stmt.h" bytes = .error .isDirectory :=
    ⟨rfl, fun _ => ⟨_, rfl, fun _ => rfl⟩⟩
  obtain ⟨after, hafter, hlast⟩ := hwrite first.contents.toUTF8
  simp only [FileSystem.published_eq, hmade, FileSystem.written_cons, hfirst, hafter, hsecond,
    hlast]
  rfl

/-- The expressions are published there, and no other file is touched. -/
theorem statements_obstructed :
    ∃ (c : Catalogue) (first second : Header), load (expressionsAndStatements false) = .ok c ∧
      c.headers {} = [first, second] ∧ CommandLine.isExtension ({} : Config).extension = true ∧
      (obstructed.published "out" (c.headers {})).1.result =
        .error (.write "out/Stmt.h" .isDirectory) ∧
      (obstructed.published "out" (c.headers {})).2.read "out/Expr.h" =
        .ok first.contents.toUTF8 ∧
      ∀ q, q ≠ first.place "out" →
        (obstructed.published "out" (c.headers {})).2.contents? q = obstructed.contents? q := by
  obtain ⟨c, first, second, hc, hheaders, hpaths⟩ := exists_headers_expressionsAndStatements
  have hextension : CommandLine.isExtension ({} : Config).extension = true := by decide
  have hstopped := published_obstructed hpaths.1 hpaths.2
  rw [← hheaders] at hstopped
  refine ⟨c, first, second, hc, hheaders, hextension, hstopped, ?_⟩
  rcases interrupted_publication hc hextension hstopped with
    ⟨cause, hcause, -⟩ | ⟨before, header, after, cause, hsplit, hcause, -, hread, -, hother⟩
  · exact absurd hcause (by simp)
  · obtain ⟨hpath, -⟩ := PublishError.write.inj hcause
    -- the error names the second header, so the first one is all that stands before
    have hbefore : before = [first] := by
      rw [hheaders] at hsplit
      match before with
      | [] =>
        obtain rfl : first = header := by simpa using congrArg List.head? hsplit
        exact absurd (hpath.trans hpaths.1) (by decide)
      | [_] =>
        obtain ⟨rfl, -⟩ := List.cons_eq_cons.1 hsplit
        rfl
      | _ :: _ :: _ => simp at hsplit
    subst hbefore
    refine ⟨?_, ?_⟩
    · rw [← hpaths.1]
      exact hread first List.mem_cons_self
    · exact fun q hq => hother q (by simpa using hq)

end Catalogue

end TreeHeaders
