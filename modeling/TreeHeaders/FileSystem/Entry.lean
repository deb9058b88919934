set_option autoImplicit false

/-!
# Entries

What has a name in a directory: a file with its contents, or a directory with entries of its
own. Main statements: an entry that is put at the end of a way can be found there
(`Listing.get?_put`), and putting what is already there changes nothing (`Listing.put_self`).
-/

namespace TreeHeaders

/-- What has a name in a directory. -/
inductive Entry where
  | file (contents : ByteArray)
  | directory (entries : List (String × Entry))
  deriving Inhabited

/-- The names in a directory, and what they stand for. -/
abbrev Listing := List (String × Entry)

/-- Is the entry a directory? -/
def Entry.isDirectory : Entry → Bool
  | .directory _ => true
  | .file _ => false

/-! ## One step -/

/-- Let a key stand for a value, in the stead of what it stood for. -/
def putEntry {κ β : Type} [DecidableEq κ] (key : κ) (value : β) : List (κ × β) → List (κ × β)
  | [] => [(key, value)]
  | (k, v) :: rest => if k = key then (k, value) :: rest else (k, v) :: putEntry key value rest

theorem lookup_putEntry {κ β : Type} [DecidableEq κ] (key other : κ) (value : β)
    (entries : List (κ × β)) :
    (putEntry key value entries).lookup other =
      if other = key then some value else entries.lookup other := by
  induction entries with
  | nil =>
    by_cases h : other = key
    · simp [putEntry, h]
    · simp [putEntry, List.lookup_cons, h, beq_eq_false_iff_ne.2 h]
  | cons e rest ih =>
    obtain ⟨k, v⟩ := e
    by_cases hk : k = key
    · subst hk
      by_cases h : other = k
      · simp [putEntry, h]
      · simp [putEntry, List.lookup_cons, h, beq_eq_false_iff_ne.2 h]
    · by_cases h : other = k
      · subst h
        simp [putEntry, hk]
      · simp [putEntry, List.lookup_cons, hk, beq_eq_false_iff_ne.2 h, ih]

theorem putEntry_self {κ β : Type} [DecidableEq κ] {key : κ} {value : β}
    {entries : List (κ × β)} (h : entries.lookup key = some value) :
    putEntry key value entries = entries := by
  induction entries with
  | nil => simp at h
  | cons e rest ih =>
    obtain ⟨k, v⟩ := e
    by_cases hk : k = key
    · subst hk
      simp at h
      simp [putEntry, h]
    · have hne : (key == k) = false := beq_eq_false_iff_ne.2 (Ne.symm hk)
      simp [List.lookup_cons, hne] at h
      simp [putEntry, hk, ih h]

/-! ## A way down -/

namespace Listing

/-- What the names lead to, one after the other. No names lead to the directory itself. -/
def get? : List String → Listing → Option Entry
  | [], entries => some (.directory entries)
  | name :: rest, entries =>
    match entries.lookup name with
    | some (.directory entries) => get? rest entries
    | some (.file contents) => if rest.isEmpty then some (.file contents) else none
    | none => none

/-- Put an entry at the end of a way. If there are no directories on the way,
nothing changes. -/
def put (entry : Entry) : List String → Listing → Listing
  | [], entries => entries
  | [name], entries => putEntry name entry entries
  | name :: rest, entries =>
    match entries.lookup name with
    | some (.directory below) => putEntry name (.directory (put entry rest below)) entries
    | _ => entries

/-- Take away what is at the end of a way; with no names, all that the directory holds. -/
def erase : List String → Listing → Listing
  | [], _ => []
  | [name], entries => entries.filter fun e => e.1 != name
  | name :: rest, entries =>
    match entries.lookup name with
    | some (.directory below) => putEntry name (.directory (erase rest below)) entries
    | _ => entries

theorem get?_singleton (name : String) (entries : Listing) :
    get? [name] entries = entries.lookup name := by
  rw [get?]
  cases h : entries.lookup name with
  | none => rfl
  | some entry => cases entry <;> rfl

/-- An entry that is put into a directory is there. -/
theorem get?_put {entry : Entry} {names : List String} {entries : Listing} {below : Listing}
    (hn : names ≠ []) (h : get? names.dropLast entries = some (.directory below)) :
    get? names (put entry names entries) = some entry := by
  induction names generalizing entries with
  | nil => exact absurd rfl hn
  | cons name rest ih =>
    cases rest with
    | nil => simp [put, get?_singleton, lookup_putEntry]
    | cons next rest =>
      rw [List.dropLast_cons_of_ne_nil (by simp), get?] at h
      split at h
      · rename_i sub hsub
        rw [put, hsub, get?, lookup_putEntry, if_pos rfl]
        · exact ih (by simp) h
        · simp
      · split at h <;> simp at h
      · simp at h

/-- Putting what is already there changes nothing. -/
theorem put_self {entry : Entry} {names : List String} {entries : Listing}
    (h : get? names entries = some entry) : put entry names entries = entries := by
  induction names generalizing entries with
  | nil => rfl
  | cons name rest ih =>
    cases rest with
    | nil =>
      rw [get?_singleton] at h
      exact putEntry_self h
    | cons next rest =>
      rw [get?] at h
      split at h
      · rename_i sub hsub
        rw [put, hsub]
        · simp only [ih h]
          exact putEntry_self hsub
        · simp
      · simp at h
      · simp at h

end Listing

/-! ## All that is below -/

mutual

/-- All that an entry holds, with the names on the way to it. -/
def Entry.descendants : Entry → List (List String × Entry)
  | .file _ => []
  | .directory entries => Listing.descendants entries

/-- The entries of a directory and all that they hold, with the names on the way. -/
def Listing.descendants : List (String × Entry) → List (List String × Entry)
  | [] => []
  | (name, entry) :: rest =>
    ([name], entry) :: (entry.descendants.map fun e => (name :: e.1, e.2)) ++
      Listing.descendants rest

end

end TreeHeaders
