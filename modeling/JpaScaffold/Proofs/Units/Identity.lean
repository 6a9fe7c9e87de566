import JpaScaffold.Proofs.Units.Precedence

/-!
# The fields that identify a row

The key of a table names columns, and its entity looks for the field of each one by the name that the
column has as a field. The first column of that name is found. It is another one than the column in
the key where two columns take one field name, and the key then loses or repeats a column. Where no
column hides one of the key, the key columns other than the partition identify a row, in their order.
-/
namespace JpaScaffold

/-! ## Lookups -/

/-- A lookup that only finds keys that are kept, and finds each key that it finds at all by the key
itself too, finds the kept keys if and only if each of them is found by itself and no other finds
one. -/
theorem filterMap_eq_filter_iff {α : Type} {g : α → Option α} {keep : α → Bool} {keys : List α}
    (hnodup : keys.Nodup)
    (hfound : ∀ k ∈ keys, ∀ k', g k = some k' → k' ∈ keys ∧ keep k' = true ∧ g k' = some k') :
    keys.filterMap g = keys.filter keep ↔
      ∀ k ∈ keys, g k = if keep k then some k else none := by
  constructor
  · intro h k hk
    split
    · next hkeep =>
      have hmem : k ∈ keys.filterMap g := by
        rw [h]
        exact List.mem_filter.2 ⟨hk, hkeep⟩
      obtain ⟨k₁, hk₁, hg⟩ := List.mem_filterMap.1 hmem
      exact (hfound k₁ hk₁ k hg).2.2
    · next hkeep =>
      -- a key that is found twice stands twice among those that are found
      refine Option.eq_none_iff_forall_ne_some.2 fun k' hg => ?_
      obtain ⟨hk', hkeep', hg'⟩ := hfound k hk k' hg
      have hpairs : keys.Pairwise fun a b => ∀ c, g a = some c → ∀ c', g b = some c' → c ≠ c' := by
        rw [← List.pairwise_filterMap, h]
        exact hnodup.filter keep
      have hne : k ≠ k' := by
        rintro rfl
        exact hkeep hkeep'
      have hsymm : Std.Symm fun a b => ∀ c, g a = some c → ∀ c', g b = some c' → c ≠ c' :=
        ⟨fun a b hab c hc c' hc' => (hab c' hc' c hc).symm⟩
      exact hpairs.forall hk hk' hne k' hg k' hg' rfl
  · intro h
    rw [← List.filterMap_eq_filter]
    refine List.filterMap_congr fun k hk => ?_
    rw [h k hk, Option.guard]

section Finding

variable {α : Type} {q : α → Bool} {l : List α} {a b : α}

theorem sublist_of_find?_eq_some (h : l.find? q = some a) (hb : b ∈ l) (hq : q b = true)
    (hne : b ≠ a) : [a, b].Sublist l := by
  obtain ⟨-, front, behind, rfl, hfront⟩ := List.find?_eq_some_iff_append.1 h
  have hbehind : b ∈ behind := by
    rcases List.mem_append.1 hb with hb | hb
    · have hnot := hfront b hb
      simp [hq] at hnot
    · exact (List.mem_cons.1 hb).resolve_left hne
  exact ((List.singleton_sublist.2 hbehind).cons_cons a).trans (List.sublist_append_right _ _)

theorem eq_false_of_find?_eq_some (hnodup : l.Nodup) (h : l.find? q = some b)
    (hsub : [a, b].Sublist l) : q a = false := by
  obtain ⟨hb, front, behind, rfl, hfront⟩ := List.find?_eq_some_iff_append.1 h
  have hpairs : (front ++ b :: behind).Pairwise fun x y => y = b → q x = false := by
    obtain ⟨-, hnodup', hdisjoint⟩ := List.nodup_append.1 hnodup
    refine List.pairwise_append.2 ⟨?_, List.pairwise_cons.2 ⟨?_, ?_⟩, ?_⟩
    · refine List.pairwise_of_forall_mem_list fun x hx y _ _ => ?_
      simpa using hfront x hx
    · rintro y hy rfl
      exact absurd hy (List.nodup_cons.1 hnodup').1
    · refine List.pairwise_of_forall_mem_list fun x _ y hy hsame => ?_
      rw [hsame] at hy
      exact absurd hy (List.nodup_cons.1 hnodup').1
    · intro x hx y _ _
      simpa using hfront x hx
  exact List.pairwise_iff_forall_sublist.1 hpairs hsub rfl

end Finding

/-! ## The columns of a key -/

/-- The column is a part of the key that identifies a row, which the partition is not. -/
def Column.identifies (d : Column) : Bool := d.isPrimaryKey && !d.isPartitionKey

namespace Units

variable {c c₀ : Config} {t : Table} {partitionKey key : String} {d : Column}

/-- The column whose field is found for a column of the key. -/
def columnFor (t : Table) (key : String) : Option Column :=
  t.columns.find? fun d => Naming.fieldName d.name == Naming.fieldName key

/-- The column that identifies a row in the place of a column of the key. -/
def identityFor (t : Table) (key : String) : Option String :=
  ((columnFor t key).filter Column.identifies).map Column.name

/-- Of two columns the first one hides the second one: it is found for it, and one of the two would
identify a row. -/
def Hides (t : Table) (a b : Column) : Prop :=
  Naming.fieldName a.name = Naming.fieldName b.name ∧ b.name ∈ t.primaryKeys ∧
    (a.identifies = true ∨ b.identifies = true)

instance (t : Table) (a b : Column) : Decidable (Hides t a b) :=
  inferInstanceAs (Decidable (_ ∧ _ ∧ _))

theorem idFields_ofTable : (Entity.ofTable c t).idFields =
    ((t.primaryKeys.filterMap (columnFor t)).filter Column.identifies).map (.ofColumn c) := by
  have hfield : (Entity.ofTable c t).field? ∘ Naming.fieldName =
      fun key => (columnFor t key).map (EntityField.ofColumn c) := by
    funext key
    exact List.find?_map ..
  have hids : (Entity.ofTable c t).idFields = ((t.primaryKeys.map Naming.fieldName).filterMap
      (Entity.ofTable c t).field?).filter EntityField.isId := rfl
  rw [hids, List.filterMap_map, hfield, ← List.map_filterMap, List.filter_map]
  rfl

theorem map_name_idFields : (Entity.ofTable c t).idFields.map (·.column.name) =
    t.primaryKeys.filterMap (identityFor t) := by
  rw [idFields_ofTable, List.map_map, List.filter_filterMap, List.map_filterMap]
  rfl

theorem mem_columns_of_mem_idFields {f : EntityField} (h : f ∈ (Entity.ofTable c t).idFields) :
    ∃ d ∈ t.columns, f = .ofColumn c d := by
  obtain ⟨d, hd, rfl⟩ := List.mem_map.1 (mem_fields_of_mem_idFields h).1
  exact ⟨d, hd, rfl⟩

theorem identityFor_eq_some {name : String} : identityFor t key = some name ↔
    ∃ d, columnFor t key = some d ∧ d.identifies = true ∧ d.name = name := by
  rw [identityFor, Option.map_eq_some_iff]
  simp only [Option.filter_eq_some_iff, and_assoc]

theorem columnFor_eq_some (h : columnFor t key = some d) :
    d ∈ t.columns ∧ Naming.fieldName d.name = Naming.fieldName key := by
  unfold columnFor at h
  exact ⟨List.mem_of_find?_eq_some h, by simpa using List.find?_some h⟩

theorem columnFor_congr {key' : String} (h : Naming.fieldName key = Naming.fieldName key') :
    columnFor t key = columnFor t key' := by
  rw [columnFor, columnFor, h]

theorem exists_columnFor (hd : d ∈ t.columns) : ∃ b, columnFor t d.name = some b :=
  Option.isSome_iff_exists.1 (List.find?_isSome.2 ⟨d, hd, beq_self_eq_true _⟩)

/-- A column that is found for another one stands in front of it and has its field name. -/
theorem sublist_of_columnFor {b : Column} (hd : d ∈ t.columns) (hfound : columnFor t d.name = some b)
    (hne : d ≠ b) : [b, d].Sublist t.columns :=
  sublist_of_find?_eq_some hfound hd (beq_self_eq_true _) hne

/-- No column of the same field name stands in front of one that is found by its own name. -/
theorem fieldName_ne_of_columnFor {a : Column} (hnodup : t.columns.Nodup)
    (hfound : columnFor t d.name = some d) (hsub : [a, d].Sublist t.columns) :
    Naming.fieldName a.name ≠ Naming.fieldName d.name := by
  unfold columnFor at hfound
  simpa using eq_false_of_find?_eq_some hnodup hfound hsub

/-- Of columns with distinct names, one that identifies a row does so in its own place if and only if
it is found there. -/
theorem identityFor_eq_self_iff (hdistinct : (t.columns.map Column.name).Nodup) (hd : d ∈ t.columns)
    (hid : d.identifies = true) :
    identityFor t d.name = some d.name ↔ columnFor t d.name = some d := by
  rw [identityFor_eq_some]
  constructor
  · rintro ⟨b, hfound, -, hname⟩
    rw [hfound, List.inj_on_of_nodup_map hdistinct (columnFor_eq_some hfound).1 hd hname]
  · intro hfound
    exact ⟨d, hfound, hid, rfl⟩

namespace KeyMarked

variable (h : KeyMarked partitionKey t)

include h

theorem identifies_iff (hd : d ∈ t.columns) :
    d.identifies = true ↔ d.name ∈ t.primaryKeys ∧ d.name ≠ partitionKey :=
  h.isId Config.default d hd

/-- What identifies a row in the place of a key column is a key column other than the partition, and
it identifies a row in its own place. -/
theorem identityFor_self {name : String} (hname : identityFor t key = some name) :
    name ∈ t.primaryKeys ∧ name ≠ partitionKey ∧ identityFor t name = some name := by
  obtain ⟨d, hfound, hid, rfl⟩ := identityFor_eq_some.1 hname
  obtain ⟨hd, hsame⟩ := columnFor_eq_some hfound
  obtain ⟨hkey, hne⟩ := (h.identifies_iff hd).1 hid
  refine ⟨hkey, hne, identityFor_eq_some.2 ⟨d, ?_, hid, rfl⟩⟩
  rwa [columnFor_congr hsame]

/-- Every key column other than the partition identifies a row in its own place, and nothing does in
the place of the partition, if and only if no column hides another one. -/
theorem identityFor_iff (hdistinct : (t.columns.map Column.name).Nodup) :
    (∀ key ∈ t.primaryKeys, identityFor t key = if key ≠ partitionKey then some key else none) ↔
      t.columns.Pairwise fun a b => ¬Hides t a b := by
  rw [List.pairwise_iff_forall_sublist]
  constructor
  · rintro hall a b hsub ⟨hsame, hkey, hid⟩
    have ha : a ∈ t.columns := hsub.mem (by simp)
    have hb : b ∈ t.columns := hsub.mem (by simp)
    have hself (d : Column) (hd : d ∈ t.columns) (hid : d.identifies = true) :
        columnFor t d.name = some d := by
      obtain ⟨hkey, hne⟩ := (h.identifies_iff hd).1 hid
      refine (identityFor_eq_self_iff hdistinct hd hid).1 ?_
      rw [hall d.name hkey, if_pos hne]
    rcases hid with hid | hid
    · have hfound : identityFor t b.name = some a.name :=
        identityFor_eq_some.2 ⟨a, by rw [← columnFor_congr hsame, hself a ha hid], hid, rfl⟩
      rw [hall b.name hkey] at hfound
      split at hfound
      · have heq : b = a := List.inj_on_of_nodup_map hdistinct hb ha (Option.some.inj hfound)
        rw [heq] at hsub
        exact absurd (hsub.nodup hdistinct.of_map) (by simp)
      · cases hfound
    · exact fieldName_ne_of_columnFor hdistinct.of_map (hself b hb hid) hsub hsame
  · intro hnot key hkey
    obtain ⟨d, hd, rfl⟩ := h.column key hkey
    obtain ⟨b, hfound⟩ := exists_columnFor hd
    obtain ⟨hb, hsame⟩ := columnFor_eq_some hfound
    split
    · next hne =>
      have hid : d.identifies = true := (h.identifies_iff hd).2 ⟨hkey, hne⟩
      refine (identityFor_eq_self_iff hdistinct hd hid).2 ?_
      by_contra hother
      have hdb : d ≠ b := by
        rintro rfl
        exact hother hfound
      exact hnot (sublist_of_columnFor hd hfound hdb) ⟨hsame, hkey, .inr hid⟩
    · next hpartition =>
      refine Option.eq_none_iff_forall_ne_some.2 fun name hname => ?_
      obtain ⟨b', hfound', hid, rfl⟩ := identityFor_eq_some.1 hname
      rw [hfound] at hfound'
      cases hfound'
      have hdb : d ≠ b := by
        rintro rfl
        exact hpartition ((h.identifies_iff hd).1 hid).2
      exact hnot (sublist_of_columnFor hd hfound hdb) ⟨hsame, hkey, .inl hid⟩

/-- The fields that identify a row are those of the key columns other than the partition, in their
order, if and only if no column hides another one. -/
theorem map_name_idFields_iff (hdistinct : (t.columns.map Column.name).Nodup) :
    (Entity.ofTable c t).idFields.map (·.column.name) = t.primaryKeys.filter (· ≠ partitionKey) ↔
      t.columns.Pairwise fun a b => ¬Hides t a b := by
  rw [map_name_idFields, ← h.identityFor_iff hdistinct, filterMap_eq_filter_iff h.nodup]
  · simp only [decide_eq_true_eq]
  · intro key _ name hname
    obtain ⟨hkey, hne, hself⟩ := h.identityFor_self hname
    exact ⟨hkey, decide_eq_true hne, hself⟩

/-- No field identifies a row if and only if every column that would has a column in front of it that
takes its field name and does not. -/
theorem idFields_eq_nil_iff (hdistinct : (t.columns.map Column.name).Nodup) :
    (Entity.ofTable c t).idFields = [] ↔ ∀ d ∈ t.columns, d.identifies = true →
      ∃ a, [a, d].Sublist t.columns ∧ Naming.fieldName a.name = Naming.fieldName d.name ∧
        a.identifies = false := by
  rw [← List.map_eq_nil_iff, map_name_idFields, List.filterMap_eq_nil_iff]
  constructor
  · intro hnone d hd hid
    obtain ⟨b, hfound⟩ := exists_columnFor hd
    have hnot : b.identifies = false := by
      refine eq_false_of_ne_true fun hb => ?_
      have hsome : identityFor t d.name = some b.name := identityFor_eq_some.2 ⟨b, hfound, hb, rfl⟩
      rw [hnone _ ((h.identifies_iff hd).1 hid).1] at hsome
      cases hsome
    have hdb : d ≠ b := by
      rintro rfl
      rw [hid] at hnot
      cases hnot
    exact ⟨b, sublist_of_columnFor hd hfound hdb, (columnFor_eq_some hfound).2, hnot⟩
  · intro hhidden key hkey
    refine Option.eq_none_iff_forall_ne_some.2 fun name hname => ?_
    obtain ⟨d, hfound, hid, rfl⟩ := identityFor_eq_some.1 hname
    obtain ⟨hd, hsame⟩ := columnFor_eq_some hfound
    obtain ⟨a, hsub, ha, -⟩ := hhidden d hd hid
    rw [← columnFor_congr hsame] at hfound
    exact fieldName_ne_of_columnFor hdistinct.of_map hfound hsub ha

end KeyMarked

/-- The columns of a table that was read have distinct names if those of its statement have. -/
theorem nodup_names_ofCreateTable {s : Sql.CreateTable} {clause : Bool}
    (h : (s.columns.map fun d => d.name.value).Nodup) :
    ((Table.ofCreateTable c₀ clause s).columns.map Column.name).Nodup := by
  have hnames : (Table.ofCreateTable c₀ clause s).columns.map Column.name =
      (s.retained c₀).map fun d => d.name.value := List.map_map ..
  rw [hnames]
  exact h.sublist (List.filter_sublist.map _)

/-- The fields that identify a row are fields of columns. They are those of the key columns other
than the partition under which the table was read, in the order of the key, if and only if no column
hides another one. A table is refused for want of a key if and only if every column that would
identify a row is hidden by one that does not; if no column hides another one, these are the tables
whose key has no column but the partition. -/
theorem idFields_of_read {s : Sql.CreateTable} {clause : Bool}
    (hdistinct : (s.columns.map fun d => d.name.value).Nodup)
    (hread : Table.ofStatement c₀ clause (.createTable s) = .ok t) :
    (∀ f ∈ (Entity.ofTable c t).idFields, ∃ d ∈ t.columns, f = .ofColumn c d) ∧
      ((Entity.ofTable c t).idFields.map (·.column.name) =
          t.primaryKeys.filter (· ≠ c₀.partitionKey) ↔
        t.columns.Pairwise fun a b => ¬Hides t a b) ∧
      (units (Entity.ofTable c t) (.ofConfig c) = .error (.noKey t.name) ↔
        ∀ d ∈ t.columns, d.name ∈ t.primaryKeys → d.name ≠ c₀.partitionKey →
          ∃ a, [a, d].Sublist t.columns ∧ Naming.fieldName a.name = Naming.fieldName d.name ∧
            a.identifies = false) ∧
      ((t.columns.Pairwise fun a b => ¬Hides t a b) →
        (units (Entity.ofTable c t) (.ofConfig c) = .error (.noKey t.name) ↔
          ∀ key ∈ t.primaryKeys, key = c₀.partitionKey)) := by
  have hmarked := keyMarked_of_read hread
  have hnames : (t.columns.map Column.name).Nodup := by
    cases hread
    exact nodup_names_ofCreateTable hdistinct
  have hnoKey : units (Entity.ofTable c t) (.ofConfig c) = .error (.noKey t.name) ↔
      (Entity.ofTable c t).idFields = [] := units_eq_noKey_iff.trans (and_iff_left rfl)
  have hids := hmarked.map_name_idFields_iff (c := c) hnames
  refine ⟨fun f => mem_columns_of_mem_idFields, hids, ?_, fun hnot => ?_⟩
  · rw [hnoKey, hmarked.idFields_eq_nil_iff hnames]
    refine forall₂_congr fun d hd => ?_
    rw [hmarked.identifies_iff hd, and_imp]
  · rw [hnoKey, ← List.map_eq_nil_iff, hids.2 hnot, List.filter_eq_nil_iff]
    simp

/-- The statement that creates a table whose key column takes the field name of a column in front of
it. -/
def hiddenTable : Sql.CreateTable where
  qualifier := []
  name := ⟨"orders", none⟩
  columns :=
    [⟨⟨"order_id", none⟩, .builtin "VARCHAR" (some "20") "", [.null]⟩,
      ⟨⟨"order_id_", none⟩, .builtin "INT8" none "", [.primaryKey]⟩]
  constraints := []

def orderId : Column := ⟨"order_id", "varchar", some 20, none, none, true, false, false, false⟩

/-- A stock is identified by its key columns, and an order is refused though it has one. -/
theorem idFields_of_stocks_and_orders :
    (Entity.ofTable Config.default (Table.ofCreateTable Config.default true stockTable)).idFields.map
        (·.column.name) = ["site_", "product_id_"] ∧
      (Table.ofCreateTable Config.default false hiddenTable).primaryKeys = ["order_id_"] ∧
      units (Entity.ofTable Config.default (Table.ofCreateTable Config.default false hiddenTable))
        (.ofConfig Config.default) = .error (.noKey "orders") := by
  have hstocks : Table.ofStatement Config.default true (.createTable stockTable) =
      .ok (Table.ofCreateTable Config.default true stockTable) := rfl
  have horders : Table.ofStatement Config.default false (.createTable hiddenTable) =
      .ok (Table.ofCreateTable Config.default false hiddenTable) := rfl
  obtain ⟨-, hids, -, -⟩ := idFields_of_read (c := Config.default) (by decide) hstocks
  obtain ⟨-, -, hnoKey, -⟩ := idFields_of_read (c := Config.default) (by decide) horders
  refine ⟨?_, by decide, hnoKey.2 ?_⟩
  · rw [hids.2 (by decide)]
    decide
  · have hfirst : ∀ d ∈ (Table.ofCreateTable Config.default false hiddenTable).columns,
        d.name ∈ (Table.ofCreateTable Config.default false hiddenTable).primaryKeys →
        [orderId, d].Sublist (Table.ofCreateTable Config.default false hiddenTable).columns ∧
          Naming.fieldName orderId.name = Naming.fieldName d.name ∧ orderId.identifies = false := by
      decide
    exact fun d hd hkey _ => ⟨orderId, hfirst d hd hkey⟩

end Units

end JpaScaffold
