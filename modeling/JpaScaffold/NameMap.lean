/-!
Values under names, kept in the order of the names. Main statement: inserting keeps the order and
leaves one value under each name.
-/
namespace JpaScaffold

/-- The entries with `value` under `key`, in place of the value that was there. -/
def insertEntry {α : Type} (key : String) (value : α) : List (String × α) → List (String × α)
  | [] => [(key, value)]
  | e :: rest =>
    if key < e.1 then (key, value) :: e :: rest
    else if e.1 < key then e :: insertEntry key value rest
    else (key, value) :: rest

/-- The names come in order, each once. -/
def InOrder {α : Type} (entries : List (String × α)) : Prop :=
  entries.Pairwise fun a b => a.1 < b.1

theorem fst_mem_insertEntry {α : Type} {key : String} {value : α} {entries : List (String × α)}
    {e : String × α} (h : e ∈ insertEntry key value entries) : e.1 = key ∨ e ∈ entries := by
  induction entries with
  | nil => exact .inl (by rw [List.mem_singleton.1 h])
  | cons a rest ih =>
    rw [insertEntry] at h
    split at h
    · rcases List.mem_cons.1 h with rfl | h
      · exact .inl rfl
      · exact .inr h
    · split at h
      · rcases List.mem_cons.1 h with rfl | h
        · exact .inr (List.mem_cons_self ..)
        · exact (ih h).imp id (List.mem_cons_of_mem _)
      · rcases List.mem_cons.1 h with rfl | h
        · exact .inl rfl
        · exact .inr (List.mem_cons_of_mem _ h)

theorem inOrder_insertEntry {α : Type} (key : String) (value : α) {entries : List (String × α)}
    (h : InOrder entries) : InOrder (insertEntry key value entries) := by
  induction entries with
  | nil => simp [insertEntry, InOrder]
  | cons a rest ih =>
    obtain ⟨ha, hr⟩ := List.pairwise_cons.1 h
    rw [insertEntry]
    split
    · next hlt =>
      refine List.pairwise_cons.2 ⟨fun e he => ?_, h⟩
      rcases List.mem_cons.1 he with rfl | he
      · exact hlt
      · exact String.lt_trans hlt (ha e he)
    · next hnlt =>
      split
      · next hlt =>
        refine List.pairwise_cons.2 ⟨fun e he => ?_, ih hr⟩
        rcases fst_mem_insertEntry he with he | he
        · rw [he]
          exact hlt
        · exact ha e he
      · next hnlt' =>
        have hkey : key = a.1 := String.le_antisymm (String.not_lt.1 hnlt') (String.not_lt.1 hnlt)
        exact List.pairwise_cons.2 ⟨fun e he => hkey ▸ ha e he, hr⟩

/-- Values under names. -/
structure NameMap (α : Type) where
  entries : List (String × α)
  inOrder : InOrder entries

namespace NameMap

variable {α : Type}

def empty : NameMap α := ⟨[], .nil⟩

def insert (m : NameMap α) (key : String) (value : α) : NameMap α :=
  ⟨insertEntry key value m.entries, inOrder_insertEntry key value m.inOrder⟩

/-- The map of a list of entries. Of several values under one name the last one stays. -/
def ofList (entries : List (String × α)) : NameMap α :=
  entries.foldl (fun m e => m.insert e.1 e.2) empty

def get? (m : NameMap α) (key : String) : Option α := m.entries.lookup key

/-- A value is found under a name of an entry. -/
theorem mem_of_get? {m : NameMap α} {key : String} {value : α} (h : m.get? key = some value) :
    (key, value) ∈ m.entries := by
  obtain ⟨before, after, hentries, -⟩ := List.lookup_eq_some_iff.1 h
  rw [hentries]
  exact List.mem_append_right before (List.mem_cons_self ..)

theorem ext {m n : NameMap α} (h : m.entries = n.entries) : m = n := by
  cases m; cases n; simp_all

instance [DecidableEq α] : DecidableEq (NameMap α) := fun m n =>
  if h : m.entries = n.entries then isTrue (ext h) else isFalse fun e => h (e ▸ rfl)

end NameMap

end JpaScaffold
