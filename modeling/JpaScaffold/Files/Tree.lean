import JpaScaffold.Files.Path

/-!
Trees of files. Main statements: a file that is written holds its text, and no other file changes;
created directories are there, and no file changes; nothing lies at a path that was removed.
-/
namespace JpaScaffold.Files

/-- A file with its text, or a directory with what it holds by name. -/
inductive Tree where
  | file (text : String)
  | directory (entries : List (String × Tree))

namespace Tree

def empty : Tree := .directory []

instance : Inhabited Tree := ⟨empty⟩

/-- The entries with `t` under `name`, in place of what was there. -/
def setEntry (name : String) (t : Tree) : List (String × Tree) → List (String × Tree)
  | [] => [(name, t)]
  | e :: rest => if e.1 = name then (name, t) :: rest else e :: setEntry name t rest

def dropEntry (name : String) (entries : List (String × Tree)) : List (String × Tree) :=
  entries.filter fun e => e.1 ≠ name

def get? (t : Tree) : Path → Option Tree
  | [] => some t
  | name :: rest =>
    match t with
    | file _ => none
    | directory entries => (entries.lookup name).bind (·.get? rest)

/-- The text of the file at a path. -/
def file? (t : Tree) (p : Path) : Option String :=
  match t.get? p with
  | some (file text) => some text
  | _ => none

def isDirectory : Tree → Bool
  | directory _ => true
  | file _ => false

/-- A directory that holds only the directories of a path. -/
def chain : Path → Tree
  | [] => empty
  | name :: rest => directory [(name, chain rest)]

/-- Creates the directories of a path that are missing. It fails where a file is in the way. -/
def createDirectories : Path → Tree → Option Tree
  | [], directory entries => some (directory entries)
  | _, file _ => none
  | name :: rest, directory entries =>
    match entries.lookup name with
    | none => some (directory (setEntry name (chain rest) entries))
    | some t =>
      (createDirectories rest t).map fun t => directory (setEntry name t entries)

/-- The greatest number of bytes in a name. -/
def nameLimit : Nat := 255

/-- The steps lead from `p` to something that is there, and on the way through directories only. A
step back leaves a directory that has to be there, too. -/
def leads (t : Tree) : Path → List String → Bool
  | p, [] => (t.get? p).isSome
  | p, name :: rest => (t.get? p).any isDirectory && t.leads (p.follow name) rest

/-- Something lies at the place. The empty text names nothing. -/
def finds (t : Tree) (p : Place) : Bool := p.text ≠ "" && t.leads [] p.steps

/-- Takes the steps from `p` and creates the directories that are missing on the way. It stops where
a file is in the way or a name is too long, and tells whether it has come to the end. -/
def enter (p : Path) (t : Tree) : List String → Tree × Bool
  | [] => (t, (t.get? p).any isDirectory)
  | name :: rest =>
    if nameLimit < name.utf8ByteSize then (t, false)
    else
      match t.createDirectories (p.follow name) with
      | none => (t, false)
      | some t => t.enter (p.follow name) rest

/-- Some entries with a file under `name`. No directory may be in its place. -/
def writeEntry (name text : String) (entries : List (String × Tree)) :
    Option (List (String × Tree)) :=
  if nameLimit < name.utf8ByteSize || (entries.lookup name).any isDirectory then none
  else some (setEntry name (file text) entries)

/-- Writes a file. Its directory has to be there. -/
def write (text : String) : Path → Tree → Option Tree
  | [], _ => none
  | _ :: _, file _ => none
  | [name], directory entries => (writeEntry name text entries).map directory
  | name :: next :: rest, directory entries =>
    (entries.lookup name).bind fun t =>
      (write text (next :: rest) t).map fun t => directory (setEntry name t entries)

/-- Removes what lies at a path. The top is emptied. -/
def remove : Path → Tree → Tree
  | _, file text => file text
  | [], directory _ => empty
  | [name], directory entries => directory (dropEntry name entries)
  | name :: next :: rest, directory entries =>
    match entries.lookup name with
    | none => directory entries
    | some t => directory (setEntry name (remove (next :: rest) t) entries)

def clear : Path → Tree → Tree
  | _, file text => file text
  | [], directory _ => empty
  | name :: rest, directory entries =>
    match entries.lookup name with
    | none => directory entries
    | some t => directory (setEntry name (clear rest t) entries)

@[simp]
theorem lookup_setEntry_self (name : String) (t : Tree) (entries : List (String × Tree)) :
    (setEntry name t entries).lookup name = some t := by
  induction entries with
  | nil => simp [setEntry]
  | cons e rest ih =>
    rw [setEntry]
    split
    · simp
    · next h =>
      rw [List.lookup_cons, ih]
      have : (name == e.1) = false := by simpa using fun h' => h h'.symm
      rw [this]

theorem lookup_setEntry_of_ne {name other : String} (h : other ≠ name) (t : Tree)
    (entries : List (String × Tree)) :
    (setEntry name t entries).lookup other = entries.lookup other := by
  have hn : (other == name) = false := by simpa using h
  induction entries with
  | nil => rw [setEntry, List.lookup_cons, hn]
  | cons e rest ih =>
    rw [setEntry]
    split
    · next he =>
      rw [List.lookup_cons, List.lookup_cons, hn, he, hn]
    · rw [List.lookup_cons, List.lookup_cons, ih]

/-- A file that was written lies at its path. -/
theorem get?_write_self {text : String} {p : Path} {t t' : Tree} (h : t.write text p = some t') :
    t'.get? p = some (file text) := by
  fun_induction write text p t generalizing t' with
  | case1 => cases h
  | case2 => cases h
  | case3 name entries =>
    obtain ⟨es, he, rfl⟩ := Option.map_eq_some_iff.1 h
    unfold writeEntry at he
    split at he
    · cases he
    · cases he
      simp [get?]
  | case4 name next rest entries ih =>
    obtain ⟨sub, _, hw⟩ := Option.bind_eq_some_iff.1 h
    obtain ⟨sub', hs, rfl⟩ := Option.map_eq_some_iff.1 hw
    rw [get?, lookup_setEntry_self]
    exact ih _ hs

theorem file?_write_self {text : String} {p : Path} {t t' : Tree}
    (h : t.write text p = some t') : t'.file? p = some text := by
  rw [file?, get?_write_self h]

/-- Writing a file changes no other file. -/
theorem file?_write_of_ne {text : String} {p q : Path} {t t' : Tree} (hne : q ≠ p)
    (h : t.write text p = some t') : t'.file? q = t.file? q := by
  -- down to the last directory the paths may part at every name
  fun_induction write text p t generalizing q t' with
  | case1 => cases h
  | case2 => cases h
  | case3 name entries =>
    obtain ⟨es, he, rfl⟩ := Option.map_eq_some_iff.1 h
    unfold writeEntry at he
    split at he
    · cases he
    · next hn =>
      cases he
      cases q with
      | nil => simp [file?, get?]
      | cons other more =>
        by_cases ho : other = name
        · subst ho
          have hm : more ≠ [] := fun hm => hne (by rw [hm])
          cases hl : entries.lookup other with
          | none =>
            cases more with
            | nil => exact absurd rfl hm
            | cons => simp [file?, get?, hl]
          | some sub =>
            cases sub with
            | file =>
              cases more with
              | nil => exact absurd rfl hm
              | cons => simp [file?, get?, hl]
            | directory es => simp [hl, isDirectory] at hn
        · simp [file?, get?, lookup_setEntry_of_ne ho]
  | case4 name next rest entries ih =>
    obtain ⟨sub, hl, hw⟩ := Option.bind_eq_some_iff.1 h
    obtain ⟨sub', hs, rfl⟩ := Option.map_eq_some_iff.1 hw
    cases q with
    | nil => simp [file?, get?]
    | cons other more =>
      by_cases ho : other = name
      · subst ho
        have := ih sub (q := more) (fun hm => hne (hm ▸ rfl)) hs
        simpa [file?, get?, hl] using this
      · simp [file?, get?, lookup_setEntry_of_ne ho]

theorem get?_chain (p : Path) : (chain p).get? p = some empty := by
  induction p with
  | nil => rfl
  | cons name rest ih => simp [chain, get?, ih]

theorem file?_chain (p q : Path) : (chain p).file? q = none := by
  induction p generalizing q with
  | nil => cases q <;> rfl
  | cons name rest ih =>
    cases q with
    | nil => rfl
    | cons other more =>
      by_cases ho : other = name
      · subst ho
        have := ih more
        simpa [file?, chain, get?] using this
      · have : (other == name) = false := by simpa using ho
        simp [file?, chain, get?, List.lookup_cons, this]

/-- A path whose directories were created leads to a directory. -/
theorem get?_createDirectories {p : Path} {t t' : Tree} (h : createDirectories p t = some t') :
    ∃ entries, t'.get? p = some (directory entries) := by
  fun_induction createDirectories p t generalizing t' with
  | case1 entries => cases h; exact ⟨entries, rfl⟩
  | case2 => cases h
  | case3 name rest entries hl =>
    cases h
    exact ⟨[], by simp [get?, get?_chain, empty]⟩
  | case4 name rest entries sub hl ih =>
    obtain ⟨sub', hs, rfl⟩ := Option.map_eq_some_iff.1 h
    obtain ⟨es, he⟩ := ih hs
    exact ⟨es, by simp [get?, he]⟩

/-- Creating directories changes no file. -/
theorem file?_createDirectories {p q : Path} {t t' : Tree} (h : createDirectories p t = some t') :
    t'.file? q = t.file? q := by
  fun_induction createDirectories p t generalizing q t' with
  | case1 entries => cases h; rfl
  | case2 => cases h
  | case3 name rest entries hl =>
    cases h
    cases q with
    | nil => simp [file?, get?]
    | cons other more =>
      by_cases ho : other = name
      · subst ho
        have := file?_chain rest more
        simpa [file?, get?, hl] using this
      · simp [file?, get?, lookup_setEntry_of_ne ho]
  | case4 name rest entries sub hl ih =>
    obtain ⟨sub', hs, rfl⟩ := Option.map_eq_some_iff.1 h
    cases q with
    | nil => simp [file?, get?]
    | cons other more =>
      by_cases ho : other = name
      · subst ho
        have := ih (q := more) hs
        simpa [file?, get?, hl] using this
      · simp [file?, get?, lookup_setEntry_of_ne ho]

@[simp]
theorem lookup_dropEntry_self (name : String) (entries : List (String × Tree)) :
    (dropEntry name entries).lookup name = none := by
  induction entries with
  | nil => rfl
  | cons e rest ih =>
    rw [dropEntry, List.filter_cons]
    split
    · next h =>
      have : (name == e.1) = false := by
        simpa using fun h' : name = e.1 => (of_decide_eq_true h) h'.symm
      rw [List.lookup_cons, this]
      exact ih
    · exact ih

/-- Nothing lies at a path that was removed. -/
theorem get?_remove_self {p : Path} (h : p ≠ []) (t : Tree) : (remove p t).get? p = none := by
  fun_induction remove p t with
  | case1 p =>
    cases p with
    | nil => exact absurd rfl h
    | cons => rfl
  | case2 => exact absurd rfl h
  | case3 name entries => simp [get?]
  | case4 name next rest entries hl => simp [get?, hl]
  | case5 name next rest entries sub hl ih =>
    rw [get?, lookup_setEntry_self]
    exact ih (by simp)

mutual

/-- The files of a tree and its empty directories, each with its path. -/
def listing (t : Tree) : List (Path × Option String) :=
  match t with
  | file text => [([], some text)]
  | directory [] => [([], none)]
  | directory (e :: rest) => listingOf (e :: rest)

/-- The files and the empty directories of some entries. -/
def listingOf : List (String × Tree) → List (Path × Option String)
  | [] => []
  | (name, t) :: rest =>
    (listing t).map (fun e => (name :: e.1, e.2)) ++ listingOf rest

end

end Tree

end JpaScaffold.Files
