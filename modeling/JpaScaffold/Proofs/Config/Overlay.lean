import JpaScaffold.Config.Toml
import JpaScaffold.Proofs.Toml.Documents

/-!
# Documents that override the defaults

The document of a configuration is read back as the configuration. Of a document that gives only
some of the names, each name that it gives has the value that is given, as a whole, and each other
name has its default.
-/
namespace JpaScaffold

open Toml

/-! ## Maps -/

namespace NameMap

variable {α : Type}

theorem insertEntry_concat {es : List (String × α)} {key : String} (value : α)
    (h : ∀ e ∈ es, e.1 < key) : insertEntry key value es = es ++ [(key, value)] := by
  induction es with
  | nil => rfl
  | cons e es ih =>
    obtain ⟨he, hes⟩ := List.forall_mem_cons.1 h
    rw [insertEntry, if_neg (String.lt_asymm he), if_pos he, ih hes]
    rfl

theorem entries_foldl_insert (m : NameMap α) {es : List (String × α)}
    (h : InOrder (m.entries ++ es)) :
    (es.foldl (fun m e => m.insert e.1 e.2) m).entries = m.entries ++ es := by
  induction es generalizing m with
  | nil => exact (List.append_nil _).symm
  | cons e es ih =>
    have hkeys : ∀ d ∈ m.entries, d.1 < e.1 :=
      fun d hd => (List.pairwise_append.1 h).2.2 d hd e List.mem_cons_self
    have hinsert : (m.insert e.1 e.2).entries = m.entries ++ [e] := insertEntry_concat e.2 hkeys
    rw [List.append_cons] at h ⊢
    rw [← hinsert] at h ⊢
    exact ih _ h

theorem ofList_entries (m : NameMap α) : ofList m.entries = m :=
  ext (entries_foldl_insert empty m.inOrder)

theorem nodup_entries (m : NameMap α) : (m.entries.map Prod.fst).Nodup := by
  refine List.pairwise_map.2 (m.inOrder.imp fun hlt he => ?_)
  rw [he] at hlt
  exact String.lt_irrefl _ hlt

end NameMap

/-! ## Groups that are read back -/

namespace Toml

theorem mapM_map {α β : Type} {read : β → Option α} {write : α → β} (xs : List α)
    (h : ∀ x ∈ xs, read (write x) = some x) : (xs.map write).mapM read = some xs := by
  induction xs with
  | nil => rfl
  | cons x xs ih =>
    obtain ⟨hx, hxs⟩ := List.forall_mem_cons.1 h
    rw [List.map_cons, List.mapM_cons, hx, ih hxs]
    rfl

theorem strings?_array (names : List String) :
    (Value.array (names.map .string)).strings? = some names :=
  mapM_map names fun _ _ => rfl

theorem natural?_integer (n : Nat) : (Value.integer n).natural? = some n := by
  simp [Value.natural?]

end Toml

namespace FormatOptions

theorem ofToml_toToml (o : FormatOptions) : ofToml (.table o.toToml) = some o := by
  obtain ⟨tab, width, command, timeout⟩ := o
  have hread : ofToml (.table (toToml ⟨tab, width, command, timeout⟩)) =
      ofTable (toToml ⟨tab, width, command, timeout⟩) := rfl
  rw [hread]
  cases command with
  | none =>
    simp [ofTable, toToml, Entries.withDefault, Entries.optional, List.lookup_cons, List.lookup_nil,
      natural?_integer]
  | some words =>
    simp [ofTable, toToml, Entries.withDefault, Entries.optional, List.lookup_cons, natural?_integer,
      strings?_array]

end FormatOptions

namespace SuperClass

theorem ofToml_toToml (s : SuperClass) : ofToml (.table s.toToml) = some s := rfl

end SuperClass

namespace ImportList

theorem ofToml_toToml (l : ImportList) : ofToml l.toToml = some l := by
  cases l with
  | one name => rfl
  | many names => simp [toToml, ofToml, strings?_array]

end ImportList

namespace PartitionContext

theorem ofToml_toToml (p : PartitionContext) : ofToml (.table p.toToml) = some p := by
  obtain ⟨expression, importName⟩ := p
  cases importName <;> rfl

end PartitionContext

namespace IdGenerator

theorem ofToml_toToml (g : IdGenerator) : ofToml (.table g.toToml) = some g := by
  obtain ⟨nextId, nextIdAsString, importName⟩ := g
  cases importName <;> rfl

end IdGenerator

namespace NameMap

theorem ofToml_toToml {α : Type} {read : Value → Option α} {write : α → Value}
    (h : ∀ x, read (write x) = some x) (m : NameMap α) :
    ofToml read (m.toToml write) = some m := by
  have hentries : (m.entries.map fun e => (e.1, write e.2)).mapM
      (fun e => (read e.2).map (e.1, ·)) = some m.entries :=
    mapM_map m.entries fun e _ => by simp [h]
  simp [ofToml, toToml, Value.table?, hentries, ofList_entries]

end NameMap

/-! ## Names that are left out -/

namespace Toml.Entries

variable {α : Type}

theorem lookup_filter (K : String → Bool) (t : Entries) (key : String) :
    (t.filter fun e => K e.1).lookup key = if K key then t.lookup key else none := by
  induction t with
  | nil => simp
  | cons e t ih =>
    obtain ⟨name, v⟩ := e
    by_cases hkey : key = name
    · subst hkey
      cases hK : K key with
      | true => simp [hK]
      | false =>
        rw [List.filter_cons_of_neg (by simp [hK]), ih]
        simp [hK]
    · have hne : (key == name) = false := beq_eq_false_iff_ne.2 hkey
      rw [List.lookup_cons, hne]
      cases hK : K name with
      | true =>
        rw [List.filter_cons_of_pos (p := fun e : String × Value => K e.1) hK, List.lookup_cons, hne]
        exact ih
      | false =>
        rw [List.filter_cons_of_neg (by simp [hK])]
        exact ih

theorem withDefault_eq (t : Entries) (key : String) (read : Value → Option α) (d : α) :
    withDefault t key read d = (t.lookup key).elim (some d) read := by
  simp only [withDefault, optional]
  cases t.lookup key <;> simp

theorem withDefault_filter (K : String → Bool) (t : Entries) (key : String)
    (read : Value → Option α) (d : α) :
    withDefault (t.filter fun e => K e.1) key read d =
      if K key then (t.lookup key).elim (some d) read else some d := by
  rw [withDefault_eq, lookup_filter]
  cases K key <;> rfl

end Toml.Entries

/-! ## Configurations -/

namespace Config

/-- The defaults, with the fields of some names taken from the configuration. -/
def overlay (c : Config) (K : String → Bool) : Config :=
  let d := Config.default
  let pick {α : Type} (key : String) (given standard : α) : α := if K key then given else standard
  { author := pick "author" c.author d.author
    partitionKey := pick "partition_key" c.partitionKey d.partitionKey
    fallbackType := pick "fallback_type" c.fallbackType d.fallbackType
    entityPackage := pick "entity_package" c.entityPackage d.entityPackage
    partitionEntityPackage :=
      pick "partition_entity_package" c.partitionEntityPackage d.partitionEntityPackage
    entityKeyPackage := pick "entity_key_package" c.entityKeyPackage d.entityKeyPackage
    repositoryPackage := pick "repository_package" c.repositoryPackage d.repositoryPackage
    partitionRepositoryPackage :=
      pick "partition_repository_package" c.partitionRepositoryPackage d.partitionRepositoryPackage
    voPackage := pick "vo_package" c.voPackage d.voPackage
    partitionVoPackage := pick "partition_vo_package" c.partitionVoPackage d.partitionVoPackage
    omitColumns := pick "omit_columns" c.omitColumns d.omitColumns
    format := pick "format" c.format d.format
    entitySuperClass := pick "entity_super_class" c.entitySuperClass d.entitySuperClass
    partitionEntitySuperClass :=
      pick "partition_entity_super_class" c.partitionEntitySuperClass d.partitionEntitySuperClass
    repositorySuperClass :=
      pick "repository_super_class" c.repositorySuperClass d.repositorySuperClass
    voSuperClass := pick "vo_super_class" c.voSuperClass d.voSuperClass
    partitionVoSuperClass :=
      pick "partition_vo_super_class" c.partitionVoSuperClass d.partitionVoSuperClass
    dataTypeMap := pick "data_type_map" c.dataTypeMap d.dataTypeMap
    dataImportMap := pick "data_import_map" c.dataImportMap d.dataImportMap
    defaultValueMap := pick "default_value_map" c.defaultValueMap d.defaultValueMap
    defaultImportMap := pick "default_import_map" c.defaultImportMap d.defaultImportMap
    partitionContext := pick "partition_context" c.partitionContext d.partitionContext
    idGenerator := pick "id_generator" c.idGenerator d.idGenerator }

theorem overlay_all (c : Config) : c.overlay (fun _ => true) = c := rfl

theorem ofToml_filter (c : Config) (K : String → Bool) :
    ofToml (c.toToml.filter fun e => K e.1) = some (c.overlay K) := by
  have htexts (m : NameMap String) : NameMap.ofToml Value.string? (m.toToml .string) = some m :=
    have hread (text : String) : Value.string? (.string text) = some text := rfl
    NameMap.ofToml_toToml hread m
  have himports (m : NameMap ImportList) :
      NameMap.ofToml ImportList.ofToml (m.toToml ImportList.toToml) = some m :=
    NameMap.ofToml_toToml ImportList.ofToml_toToml m
  simp only [ofToml, Entries.withDefault_filter]
  simp [toToml, overlay, List.lookup_cons, Value.string?, strings?_array, FormatOptions.ofToml_toToml,
    SuperClass.ofToml_toToml, htexts, himports, PartitionContext.ofToml_toToml,
    IdGenerator.ofToml_toToml, ← apply_ite some]

/-! ### Their documents -/

theorem readable_strings (names : List String) (depth : Nat) :
    Readable (depth + 2) (.array (names.map .string)) := by
  refine readable_array fun v hv => ?_
  obtain ⟨name, -, rfl⟩ := List.mem_map.1 hv
  exact readable_string name depth

theorem isEntry_string (text : String) : IsEntry (.string text) :=
  .value (readable_string text 79) rfl

theorem isEntry_superClass (s : SuperClass) : IsEntry (.table s.toToml) := by
  refine .table (by simp [SuperClass.toToml]) ?_
  simp only [SuperClass.toToml, List.forall_mem_cons]
  exact ⟨readable_string _ 79, readable_string _ 79, by simp⟩

theorem readable_importEntry (name : Option String) :
    ∀ e ∈ importEntry name, Readable Reader.depthLimit e.2 := by
  intro e he
  obtain ⟨n, -, rfl⟩ : ∃ n, name = some n ∧ ("import", Value.string n) = e := by
    simpa [importEntry] using he
  exact readable_string n 79

theorem isEntry_partitionContext (p : PartitionContext) : IsEntry (.table p.toToml) := by
  obtain ⟨expression, importName⟩ := p
  refine .table (by cases importName <;> simp [PartitionContext.toToml, importEntry]) ?_
  exact List.forall_mem_cons.2 ⟨readable_string _ 79, readable_importEntry importName⟩

theorem isEntry_idGenerator (g : IdGenerator) : IsEntry (.table g.toToml) := by
  obtain ⟨nextId, nextIdAsString, importName⟩ := g
  refine .table (by cases importName <;> simp [IdGenerator.toToml, importEntry]) ?_
  simp only [IdGenerator.toToml, List.forall_mem_cons]
  exact ⟨readable_string _ 79, readable_string _ 79, readable_importEntry importName⟩

theorem isEntry_nameMap {α : Type} {write : α → Value} (m : NameMap α)
    (h : ∀ x, Readable Reader.depthLimit (write x)) : IsEntry (m.toToml write) := by
  refine .table ?_ fun e he => ?_
  · rw [List.map_map]
    exact m.nodup_entries
  · obtain ⟨e, -, rfl⟩ := List.mem_map.1 he
    exact h e.2

theorem readable_importList (l : ImportList) : Readable Reader.depthLimit l.toToml := by
  cases l with
  | one name => exact readable_string name 79
  | many names => exact readable_strings names 78

theorem isEntry_format {o : FormatOptions} (h : o.isWritable = true) : IsEntry (.table o.toToml) := by
  obtain ⟨tab, width, command, timeout⟩ := o
  simp only [FormatOptions.isWritable, Bool.and_eq_true, decide_eq_true_eq] at h
  obtain ⟨⟨htab, hwidth⟩, htimeout⟩ := h
  have hcommand : ∀ e ∈ (command.map fun c => ("command", Value.array (c.map .string))).toList,
      Readable Reader.depthLimit e.2 := by
    intro e he
    obtain ⟨c, -, rfl⟩ : ∃ c, command = some c ∧ ("command", Value.array (c.map .string)) = e := by
      simpa using he
    exact readable_strings c 78
  refine .table (by cases command <;> simp [FormatOptions.toToml]) ?_
  simp only [FormatOptions.toToml, List.cons_append, List.nil_append, List.forall_mem_cons,
    List.forall_mem_append]
  exact ⟨readable_natural htab 79, readable_natural hwidth 79, hcommand,
    readable_natural htimeout 79, by simp⟩

theorem nodup_toToml (c : Config) : (c.toToml.map Prod.fst).Nodup := by
  simp [toToml]

theorem isEntry_toToml {c : Config} (h : c.format.isWritable = true) :
    ∀ e ∈ c.toToml, IsEntry e.2 := by
  have htexts (m : NameMap String) : IsEntry (m.toToml .string) :=
    isEntry_nameMap m fun name => readable_string name 79
  simp only [toToml, List.forall_mem_cons, List.not_mem_nil, false_implies, implies_true, and_true,
    isEntry_string, isEntry_superClass, isEntry_partitionContext, isEntry_idGenerator, htexts,
    isEntry_format h, isEntry_nameMap _ readable_importList, true_and]
  exact .value (readable_strings c.omitColumns 78) rfl

theorem isDocument_filter {c : Config} (h : c.format.isWritable = true) (K : String → Bool) :
    IsDocument (c.toToml.filter fun e => K e.1) where
  names := (List.filter_sublist.map Prod.fst).nodup c.nodup_toToml
  values e he := isEntry_toToml h e (List.mem_filter.1 he).1

theorem arranged_toToml (c : Config) : Entries.arranged c.toToml = c.toToml := by
  rw [Entries.arranged, tables_eq]
  rfl

theorem arranged_filter (t : Entries) (K : String → Bool) :
    Entries.arranged (t.filter fun e => K e.1) = (Entries.arranged t).filter fun e => K e.1 := by
  simp only [Entries.arranged, tables_eq, Entries.plain, List.filter_append, List.filter_filter,
    Bool.and_comm]

end Config

end JpaScaffold
