import JpaScaffold.Proofs.Toml.Values

/-!
# Documents that are read back

A table of values and of tables of values is printed line by line. The lines are read back one by
one, and they make the same table again, its plain values in front of its tables.
-/
namespace JpaScaffold.Toml

open Reader (accept expect gapLines lineEnd)

variable {cs rest : List Char} {ls : List Line} {v : Value}

/-! ## Lines -/

theorem solid_key (name : String) (rest : List Char) : Solid (Printer.key name ++ rest) := by
  obtain ⟨c, cs, he, hc⟩ := exists_cons_key name
  have hne {d : Char} (hd : d ≠ '"') (hd' : d ≠ '\'') (hbare : Reader.isBare d = false) : c ≠ d := by
    rintro rfl
    rcases hc with hc | hc | hc
    · exact hd hc
    · exact hd' hc
    · rw [hbare] at hc
      cases hc
  have hspace : isSpace c = false := by
    simp [isSpace, hne (d := ' ') (by decide) (by decide) (by decide),
      hne (d := '\t') (by decide) (by decide) (by decide)]
  rw [he]
  exact ⟨c, cs ++ rest, rfl, hspace, hne (by decide) (by decide) (by decide),
    hne (by decide) (by decide) (by decide), hne (by decide) (by decide) (by decide)⟩

theorem head_key_ne {name : String} {c : Char} (hq : c ≠ '"') (hq' : c ≠ '\'')
    (hbare : Reader.isBare c = false) (rest : List Char) :
    (Printer.key name ++ rest).head? ≠ some c := by
  obtain ⟨d, cs, he, hd⟩ := exists_cons_key name
  rw [he]
  intro hc
  obtain rfl : d = c := by simpa using hc
  rcases hd with hd | hd | hd
  · exact hq hd
  · exact hq' hd
  · rw [hbare] at hd
    cases hd

theorem accept_of_head (text : String) {c : Char} {tail cs : List Char} (htext : text.toList = c :: tail)
    (h : cs.head? ≠ some c) : accept text cs = some (false, cs) := by
  refine accept_eq_false ?_
  rw [htext]
  cases cs with
  | nil => rfl
  | cons d cs =>
    have hne : c ≠ d := fun he => h (by rw [he]; rfl)
    simp [List.isPrefixOf, hne]

theorem line_entry (name : String) (h : Readable Reader.depthLimit v) (rest : List Char) :
    Reader.line (Printer.entry (name, v) ++ rest) = some (.entry [name] v, '\n' :: rest) := by
  have hentry : Printer.entry (name, v) ++ rest =
      Printer.key name ++ ' ' :: '=' :: ' ' :: (Printer.value v ++ '\n' :: rest) := by
    simp [Printer.entry]
  have hopen : (Printer.key name ++ ' ' :: '=' :: ' ' :: (Printer.value v ++ '\n' :: rest)).head? ≠
      some '[' := head_key_ne (by decide) (by decide) (by decide) _
  have hkey : Reader.key (Printer.key name ++ ' ' :: '=' :: ' ' :: (Printer.value v ++ '\n' :: rest)) =
      some ([name], '=' :: ' ' :: (Printer.value v ++ '\n' :: rest)) :=
    key_append name (fun c hc => by cases hc; decide) rfl
  have hequals : expect "=" ('=' :: ' ' :: (Printer.value v ++ '\n' :: rest)) =
      some ((), ' ' :: (Printer.value v ++ '\n' :: rest)) := expect_append "=" _
  have hvalue := h.read ('\n' :: rest) ⟨_, _, rfl, by simp⟩
  have hspaces : skipSpaces (' ' :: (Printer.value v ++ '\n' :: rest)) =
      Printer.value v ++ '\n' :: rest := by
    have hskip (cs : List Char) : skipSpaces (' ' :: cs) = skipSpaces cs := rfl
    obtain ⟨c, tail, he, hc, -⟩ := h.solid
    rw [hskip, he, List.cons_append, skipSpaces_cons hc]
  rw [hentry, Reader.line]
  simp only [bind, StateT.bind, accept_of_head "[[" rfl hopen,
    accept_of_head "[" rfl hopen, hkey, hequals, Reader.spaces, hspaces, hvalue,
    Option.bind_some, Bool.false_eq_true, if_false]
  rfl

theorem line_table (name : String) (rest : List Char) :
    Reader.line ('[' :: (Printer.key name ++ ']' :: '\n' :: rest)) =
      some (.table [name], '\n' :: rest) := by
  have hsecond : (Printer.key name ++ ']' :: '\n' :: rest).head? ≠ some '[' :=
    head_key_ne (by decide) (by decide) (by decide) _
  have htables : accept "[[" ('[' :: (Printer.key name ++ ']' :: '\n' :: rest)) =
      some (false, '[' :: (Printer.key name ++ ']' :: '\n' :: rest)) := by
    refine accept_eq_false ?_
    cases hcs : Printer.key name ++ ']' :: '\n' :: rest with
    | nil => rfl
    | cons c cs =>
      rw [hcs] at hsecond
      have hc : '[' ≠ c := fun he => hsecond (by rw [← he]; rfl)
      simp [List.isPrefixOf, hc]
  have htable : accept "[" ('[' :: (Printer.key name ++ ']' :: '\n' :: rest)) =
      some (true, Printer.key name ++ ']' :: '\n' :: rest) := accept_eq_true "[" _
  have hkey : Reader.key (Printer.key name ++ ']' :: '\n' :: rest) =
      some ([name], ']' :: '\n' :: rest) :=
    key_append name (fun c hc => by cases hc; decide) rfl
  have hclose : expect "]" (']' :: '\n' :: rest) = some ((), '\n' :: rest) := expect_append "]" _
  rw [Reader.line]
  simp only [bind, StateT.bind, htables, htable, hkey, hclose, Option.bind_some,
    Bool.false_eq_true, if_false, if_true]
  rfl

/-- The text is read as the lines. -/
def ReadAs (cs : List Char) (ls : List Line) : Prop :=
  ∀ fuel, cs.length < fuel → Reader.lines cs fuel = some ls

theorem readAs_nil : ReadAs [] [] := by
  intro fuel hf
  obtain ⟨fuel, rfl⟩ := Nat.exists_eq_succ_of_ne_zero (Nat.ne_of_gt hf)
  rfl

theorem ReadAs.newline (h : ReadAs cs ls) : ReadAs ('\n' :: cs) ls := by
  intro fuel hf
  obtain ⟨fuel, rfl⟩ := Nat.exists_eq_succ_of_ne_zero (Nat.ne_of_gt (Nat.zero_lt_of_lt hf))
  have hread := h _ (Nat.lt_of_succ_lt hf)
  rw [Reader.lines] at hread ⊢
  rw [List.length_cons, gapLines_newline]
  exact hread

theorem ReadAs.line (h : ReadAs rest ls) {l : Line} (hsolid : Solid (cs ++ rest)) (hne : cs ≠ [])
    (hline : Reader.line (cs ++ rest) = some (l, '\n' :: rest)) : ReadAs (cs ++ rest) (l :: ls) := by
  intro fuel hf
  obtain ⟨fuel, rfl⟩ := Nat.exists_eq_succ_of_ne_zero (Nat.ne_of_gt (Nat.zero_lt_of_lt hf))
  have hread := h fuel (by
    have hlen := List.length_pos_iff.2 hne
    rw [List.length_append] at hf
    omega)
  have hend : lineEnd ('\n' :: rest) = some rest := rfl
  rw [Reader.lines, hsolid.gapLines]
  obtain ⟨c, tail, he, -⟩ := hsolid
  rw [he] at hline ⊢
  simp only [hline, Option.bind_some, hend, hread, Option.map_some]

/-! ## Parts -/

/-- The part of a document is read as the lines, whatever lines come next. -/
def PartOf (part : List Char) (lines : List Line) : Prop :=
  ∀ rest ls, ReadAs rest ls → ReadAs (part ++ rest) (lines ++ ls)

theorem PartOf.append {p p' : List Char} {ls ls' : List Line} (h : PartOf p ls) (h' : PartOf p' ls') :
    PartOf (p ++ p') (ls ++ ls') := by
  intro rest more hrest
  rw [List.append_assoc, List.append_assoc]
  exact h _ _ (h' _ _ hrest)

theorem readAs_intercalate {parts : List (List Char × List Line)}
    (h : ∀ p ∈ parts, PartOf p.1 p.2) :
    ReadAs (['\n'].intercalate (parts.map Prod.fst)) (parts.flatMap Prod.snd) := by
  induction parts with
  | nil => exact readAs_nil
  | cons p parts ih =>
    obtain ⟨hp, hparts⟩ := List.forall_mem_cons.1 h
    rw [List.map_cons, List.flatMap_cons]
    by_cases hne : parts.map Prod.fst = []
    · obtain rfl : parts = [] := List.map_eq_nil_iff.1 hne
      have hlast := hp [] [] readAs_nil
      rw [List.append_nil] at hlast
      simpa using hlast
    · rw [List.intercalate_cons_of_ne_nil hne, List.append_assoc]
      exact hp _ _ (ih hparts).newline

def entryLines (t : Entries) : List Line := t.map fun e => .entry [e.1] e.2

theorem solid_entry (e : String × Value) (rest : List Char) : Solid (Printer.entry e ++ rest) := by
  simp only [Printer.entry, List.append_assoc]
  exact solid_key e.1 _

theorem partOf_entries {t : Entries} (h : ∀ e ∈ t, Readable Reader.depthLimit e.2) :
    PartOf (t.flatMap Printer.entry) (entryLines t) := by
  induction t with
  | nil => exact fun _ _ hrest => hrest
  | cons e t ih =>
    obtain ⟨he, ht⟩ := List.forall_mem_cons.1 h
    intro rest ls hrest
    rw [List.flatMap_cons, List.append_assoc]
    exact (ih ht rest ls hrest).line (solid_entry e _) (by simp [Printer.entry]) (line_entry e.1 he _)

/-- The lines of a table: its header and its entries. -/
def tableLines (name : String) (t : Entries) : List Line := .table [name] :: entryLines t

theorem partOf_table (name : String) {t : Entries} (h : ∀ e ∈ t, Readable Reader.depthLimit e.2) :
    PartOf (Printer.table name t) (tableLines name t) := by
  intro rest ls hrest
  have htable : Printer.table name t ++ rest =
      ('[' :: (Printer.key name ++ [']', '\n'])) ++ (t.flatMap Printer.entry ++ rest) := by
    simp [Printer.table]
  have hline := line_table name (t.flatMap Printer.entry ++ rest)
  rw [htable]
  exact (partOf_entries h rest ls hrest).line ⟨'[', _, rfl, by decide⟩ (by simp) (by simpa using hline)

/-! ## Tables -/

/-- What stands under a name of a document: a value, or a table of values. -/
inductive IsEntry : Value → Prop
  | value {v : Value} (h : Readable Reader.depthLimit v) (ht : v.table? = none) : IsEntry v
  | table {t : Entries} (hn : (t.map Prod.fst).Nodup)
      (h : ∀ e ∈ t, Readable Reader.depthLimit e.2) : IsEntry (.table t)

/-- The entries of a document: each name once. -/
structure IsDocument (t : Entries) : Prop where
  names : (t.map Prod.fst).Nodup
  values : ∀ e ∈ t, IsEntry e.2

namespace Nodes

variable {ns : Nodes} {key : String} {n m : Node}

/-- No node stands under the name. -/
def Free (key : String) (ns : Nodes) : Prop := key ∉ ns.map Prod.fst

theorem Free.lookup (h : Free key ns) : ns.lookup key = none := by
  refine List.lookup_eq_none_iff.2 fun p hp => ?_
  simp only [bne_iff_ne]
  rintro rfl
  exact h (List.mem_map_of_mem hp)

theorem Free.lookup_concat (h : Free key ns) : (ns ++ [(key, n)]).lookup key = some n := by
  rw [List.lookup_append, h.lookup]
  simp

theorem Free.set (h : Free key ns) : Nodes.set key n ns = ns ++ [(key, n)] := by
  induction ns with
  | nil => rfl
  | cons e ns ih =>
    simp only [Free, List.map_cons, List.mem_cons, not_or] at h
    rw [Nodes.set, if_neg (Ne.symm h.1), ih h.2]
    rfl

theorem Free.set_concat (h : Free key ns) : Nodes.set key n (ns ++ [(key, m)]) = ns ++ [(key, n)] := by
  induction ns with
  | nil => simp [Nodes.set]
  | cons e ns ih =>
    simp only [Free, List.map_cons, List.mem_cons, not_or] at h
    rw [List.cons_append, Nodes.set, if_neg (Ne.symm h.1), ih h.2]
    rfl

theorem Free.insert (h : Free key ns) (v : Value) :
    Nodes.insert v .header [key] ns = some (ns ++ [(key, .value v)]) := by
  rw [Nodes.insert, if_neg (by simp [h.lookup]), h.set]

theorem addLines_entry (h : Free key ns) (v : Value) (ls : List Line) :
    addLines [] ns (.entry [key] v :: ls) = addLines [] (ns ++ [(key, .value v)]) ls := by
  rw [addLines, within, h.insert]
  rfl

theorem addLines_table (h : Free key ns) (current : List String) (ls : List Line) :
    addLines current ns (.table [key] :: ls) =
      addLines [key] (ns ++ [(key, .table .header [])]) ls := by
  have hopen : atPath openTable [key] ns = some (ns ++ [(key, .table .header [])]) := by
    simp only [atPath, List.getLast?_singleton, Option.bind_some, List.dropLast_singleton, within,
      openTable, h.lookup, h.set]
  rw [addLines, hopen]
  rfl

variable {name : String} {inner : Nodes}

theorem addLines_entry_within (hname : Free name ns) (h : Free key inner) (v : Value)
    (ls : List Line) :
    addLines [name] (ns ++ [(name, .table .header inner)]) (.entry [key] v :: ls) =
      addLines [name] (ns ++ [(name, .table .header (inner ++ [(key, .value v)]))]) ls := by
  rw [addLines, within, hname.lookup_concat]
  simp only [within, h.insert, Option.map_some, hname.set_concat, Option.bind_some]

theorem free_concat {k : String} (h : Free k ns) (hk : k ≠ key) : Free k (ns ++ [(key, n)]) := by
  simp only [Free, List.map_append, List.mem_append, List.map_cons, List.map_nil,
    List.mem_singleton, not_or]
  exact ⟨h, hk⟩

theorem addLines_entries_within (hname : Free name ns) {t : Entries}
    (hn : (t.map Prod.fst).Nodup) (h : ∀ k ∈ t.map Prod.fst, Free k inner) (ls : List Line) :
    addLines [name] (ns ++ [(name, .table .header inner)]) (entryLines t ++ ls) =
      addLines [name]
        (ns ++ [(name, .table .header (inner ++ t.map fun e => (e.1, .value e.2)))]) ls := by
  induction t generalizing inner with
  | nil => simp [entryLines]
  | cons e t ih =>
    obtain ⟨he, ht⟩ := List.forall_mem_cons.1 h
    obtain ⟨hnot, hn⟩ := List.nodup_cons.1 hn
    have hfree : ∀ k ∈ t.map Prod.fst, Free k (inner ++ [(e.1, Node.value e.2)]) :=
      fun k hk => free_concat (ht k hk) fun hke => hnot (hke ▸ hk)
    have hrest := ih hn hfree
    simp only [entryLines, List.map_cons, List.cons_append] at hrest ⊢
    rw [addLines_entry_within hname he, hrest, List.append_assoc]
    rfl

theorem addLines_values {t : Entries} (hn : (t.map Prod.fst).Nodup)
    (h : ∀ k ∈ t.map Prod.fst, Free k ns) (ls : List Line) :
    addLines [] ns (entryLines t ++ ls) =
      addLines [] (ns ++ t.map fun e => (e.1, .value e.2)) ls := by
  induction t generalizing ns with
  | nil => simp [entryLines]
  | cons e t ih =>
    obtain ⟨he, ht⟩ := List.forall_mem_cons.1 h
    obtain ⟨hnot, hn⟩ := List.nodup_cons.1 hn
    have hfree : ∀ k ∈ t.map Prod.fst, Free k (ns ++ [(e.1, Node.value e.2)]) :=
      fun k hk => free_concat (ht k hk) fun hke => hnot (hke ▸ hk)
    have hrest := ih hn hfree
    simp only [entryLines, List.map_cons, List.cons_append] at hrest ⊢
    rw [addLines_entry he, hrest, List.append_assoc]
    rfl

def tableNode (t : Entries) : Node := .table .header (t.map fun e => (e.1, .value e.2))

theorem addLines_tables {ts : List (String × Entries)} (hn : (ts.map Prod.fst).Nodup)
    (hts : ∀ e ∈ ts, (e.2.map Prod.fst).Nodup) (h : ∀ k ∈ ts.map Prod.fst, Free k ns)
    (current : List String) :
    addLines current ns (ts.flatMap fun e => tableLines e.1 e.2) =
      some (ns ++ ts.map fun e => (e.1, tableNode e.2)) := by
  induction ts generalizing ns current with
  | nil => simp [addLines]
  | cons e ts ih =>
    obtain ⟨he, hrest⟩ := List.forall_mem_cons.1 h
    obtain ⟨hnot, hn⟩ := List.nodup_cons.1 hn
    obtain ⟨hnames, hts⟩ := List.forall_mem_cons.1 hts
    have hfree : ∀ k ∈ ts.map Prod.fst, Free k (ns ++ [(e.1, tableNode e.2)]) :=
      fun k hk => free_concat (hrest k hk) fun hke => hnot (hke ▸ hk)
    have hempty : ∀ k ∈ e.2.map Prod.fst, Free k [] := fun _ _ => by simp [Free]
    have hinner := addLines_entries_within he hnames hempty (ts.flatMap fun e => tableLines e.1 e.2)
    rw [List.flatMap_cons, tableLines, List.cons_append, addLines_table he, hinner,
      List.nil_append, ← tableNode, ih hn hts hfree, List.append_assoc]
    rfl

end Nodes

theorem tableOf_values (t : Entries) : tableOf (t.map fun e => (e.1, .value e.2)) = t := by
  induction t with
  | nil => rfl
  | cons e t ih =>
    rw [List.map_cons, tableOf, ih]
    rfl

theorem tableOf_append (ns ms : Nodes) : tableOf (ns ++ ms) = tableOf ns ++ tableOf ms := by
  induction ns with
  | nil => rfl
  | cons e ns ih =>
    obtain ⟨key, n⟩ := e
    rw [List.cons_append, tableOf, ih, tableOf]
    rfl

theorem tableOf_tables (ts : List (String × Entries)) :
    tableOf (ts.map fun e => (e.1, Nodes.tableNode e.2)) = ts.map fun e => (e.1, .table e.2) := by
  induction ts with
  | nil => rfl
  | cons e ts ih =>
    rw [List.map_cons, tableOf, ih, Nodes.tableNode, Node.toValue, tableOf_values]
    rfl

/-! ## Documents -/

def Entries.plain (t : Entries) : Entries := t.filter fun e => !e.2.isTable

def Entries.tables (t : Entries) : List (String × Entries) :=
  t.filterMap fun e => e.2.table?.map (e.1, ·)

/-- The entries in the order in which they are written. -/
def Entries.arranged (t : Entries) : Entries :=
  t.plain ++ t.tables.map fun e => (e.1, .table e.2)

theorem tables_eq (t : Entries) :
    (t.tables.map fun e => (e.1, Value.table e.2)) = t.filter fun e => e.2.isTable := by
  induction t with
  | nil => rfl
  | cons e t ih =>
    obtain ⟨name, v⟩ := e
    cases hv : v.table? with
    | none =>
      have hplain : v.isTable = false := by
        cases v with
        | table => cases hv
        | string | integer | float | boolean | date | array => rfl
      rw [Entries.tables, List.filterMap_cons_none (by simp [hv]),
        List.filter_cons_of_neg (by simp [hplain])]
      exact ih
    | some entries =>
      obtain rfl : v = .table entries := by
        cases v with
        | table => cases hv; rfl
        | string | integer | float | boolean | date | array => cases hv
      rw [Entries.tables, List.filterMap_cons_some (f := fun e : String × Value => e.2.table?.map (e.1, ·))
        (b := (name, entries)) rfl, List.map_cons,
        List.filter_cons_of_pos rfl]
      exact congrArg _ ih

theorem arranged_perm (t : Entries) : t.arranged.Perm t := by
  rw [Entries.arranged, tables_eq]
  exact List.perm_append_comm.trans (List.filter_append_perm (fun e => e.2.isTable) t)

theorem mem_tables {t : Entries} {e : String × Entries} (h : e ∈ t.tables) :
    (e.1, Value.table e.2) ∈ t := by
  have hmem : (e.1, Value.table e.2) ∈ t.tables.map fun e => (e.1, Value.table e.2) :=
    List.mem_map_of_mem h
  rw [tables_eq] at hmem
  exact (List.mem_filter.1 hmem).1

theorem IsDocument.readable_plain {t : Entries} (h : IsDocument t) :
    ∀ e ∈ t.plain, Readable Reader.depthLimit e.2 := by
  intro e he
  obtain ⟨hmem, hplain⟩ := List.mem_filter.1 he
  have hv := h.values e hmem
  generalize e.2 = v at hv hplain ⊢
  cases hv with
  | value hv => exact hv
  | table => cases hplain

theorem IsDocument.entry_table {t : Entries} (h : IsDocument t) {e : String × Entries}
    (he : e ∈ t.tables) :
    (e.2.map Prod.fst).Nodup ∧ ∀ f ∈ e.2, Readable Reader.depthLimit f.2 := by
  cases h.values _ (mem_tables he) with
  | value _ ht => cases ht
  | table hn hf => exact ⟨hn, hf⟩

theorem IsDocument.readAs {t : Entries} (h : IsDocument t) :
    ReadAs (['\n'].intercalate (Printer.parts t))
      (entryLines t.plain ++ t.tables.flatMap fun e => tableLines e.1 e.2) := by
  let parts : List (List Char × List Line) :=
    (if t.plain.isEmpty then [] else [(t.plain.flatMap Printer.entry, entryLines t.plain)]) ++
      t.tables.map fun e => (Printer.table e.1 e.2, tableLines e.1 e.2)
  have hparts : Printer.parts t = parts.map Prod.fst := by
    have htables : t.filterMap Printer.table? = t.tables.map fun e => Printer.table e.1 e.2 := by
      simp only [Entries.tables, List.map_filterMap, Printer.table?, Option.map_map]
      rfl
    simp only [Printer.parts, htables, parts, List.map_append, List.map_map]
    congr 1
    unfold Entries.plain
    split <;> rfl
  have hlines : parts.flatMap Prod.snd =
      entryLines t.plain ++ t.tables.flatMap fun e => tableLines e.1 e.2 := by
    simp only [parts, List.flatMap_append, List.flatMap_map]
    congr 1
    split
    · next hnil => simp [List.isEmpty_iff.1 hnil, entryLines]
    · simp
  rw [hparts, ← hlines]
  refine readAs_intercalate fun p hp => ?_
  rcases List.mem_append.1 hp with hp | hp
  · split at hp
    · cases hp
    · rw [List.mem_singleton.1 hp]
      exact partOf_entries h.readable_plain
  · obtain ⟨e, he, rfl⟩ := List.mem_map.1 hp
    exact partOf_table e.1 (h.entry_table he).2

theorem IsDocument.ofLines {t : Entries} (h : IsDocument t) :
    ofLines (entryLines t.plain ++ t.tables.flatMap fun e => tableLines e.1 e.2) =
      some t.arranged := by
  have hnames : (t.arranged.map Prod.fst).Nodup :=
    ((arranged_perm t).map Prod.fst).nodup_iff.2 h.names
  simp only [Entries.arranged, List.map_append, List.map_map] at hnames
  obtain ⟨hplain, htables, hdisjoint⟩ := List.nodup_append.1 hnames
  have hfree : ∀ k ∈ t.tables.map Prod.fst,
      Nodes.Free k (t.plain.map fun e => (e.1, Node.value e.2)) := by
    intro k hk hmem
    rw [List.map_map] at hmem
    exact hdisjoint k hmem k hk rfl
  have hempty : ∀ k ∈ t.plain.map Prod.fst, Nodes.Free k [] := fun _ _ => by simp [Nodes.Free]
  have hadd := Nodes.addLines_values hplain hempty (t.tables.flatMap fun e => tableLines e.1 e.2)
  rw [Toml.ofLines, hadd, List.nil_append,
    Nodes.addLines_tables htables (fun e he => (h.entry_table he).1) hfree, Option.map_some,
    tableOf_append, tableOf_values, tableOf_tables]
  rfl

theorem exists_cons_part {t : Entries} {part : List Char} (h : part ∈ Printer.parts t) :
    ∃ c cs, part = c :: cs ∧ c ≠ '\uFEFF' := by
  rcases List.mem_append.1 h with h | h
  · split at h
    · cases h
    · next hne =>
      obtain ⟨e, plain, he⟩ := List.exists_cons_of_ne_nil (List.isEmpty_eq_false_iff.1
        (eq_false_of_ne_true hne))
      obtain ⟨c, cs, hkey, hc⟩ := exists_cons_key e.1
      rw [List.mem_singleton.1 h, he, List.flatMap_cons, Printer.entry, hkey]
      refine ⟨c, _, rfl, ?_⟩
      rintro rfl
      revert hc
      decide
  · obtain ⟨e, -, he⟩ := List.mem_filterMap.1 h
    obtain ⟨entries, -, rfl⟩ := Option.map_eq_some_iff.1 he
    exact ⟨'[', _, rfl, by decide⟩

theorem head_print (t : Entries) :
    (['\n'].intercalate (Printer.parts t)).head? ≠ some '\uFEFF' := by
  have hparts : ∀ part ∈ Printer.parts t, ∃ c cs, part = c :: cs ∧ c ≠ '\uFEFF' :=
    fun _ => exists_cons_part
  cases hp : Printer.parts t with
  | nil => simp
  | cons part parts =>
    obtain ⟨c, cs, rfl, hc⟩ := hparts part (by rw [hp]; exact List.mem_cons_self)
    cases parts with
    | nil => simpa using hc
    | cons part' parts => simpa [List.intercalate_cons_cons] using hc

theorem parse_print {t : Entries} (h : IsDocument t) : parse (print t) = some t.arranged := by
  have hread := h.readAs
  have hhead := head_print t
  have htext : (print t).toList = ['\n'].intercalate (Printer.parts t) := String.toList_ofList
  unfold parse
  rw [htext]
  generalize ['\n'].intercalate (Printer.parts t) = cs at hread hhead
  split
  · exact absurd rfl hhead
  · have hlines := hread _ (Nat.lt_succ_self cs.length)
    simp only [hlines, Option.bind_some, h.ofLines]

end JpaScaffold.Toml
