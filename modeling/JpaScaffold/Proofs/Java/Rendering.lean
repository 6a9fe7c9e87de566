import JpaScaffold.Proofs.Java.Build
import JpaScaffold.Proofs.Layout.Phrases

/-!
# Rendered trees

A tree whose names are names and whose other texts are phrases is rendered as complete members, line
by line.
-/
namespace JpaScaffold.Java

open Layout (Opening Phrase Sheet)

variable {s : String} {cs ds next : List Char} {A : Prop}

/-! ## Dotted names -/

theorem isDigit_of_isNameStart {c : Char} (h : isNameStart c = true) : c.isDigit = false := by
  by_contra hdigit
  have hdigit := eq_true_of_ne_false hdigit
  have hlt : c.val < 128 := by
    simp only [Char.isDigit, Bool.and_eq_true, decide_eq_true_eq] at hdigit
    have := UInt32.le_iff_toNat_le.1 hdigit.2
    rw [UInt32.lt_iff_toNat_lt]
    exact Nat.lt_of_le_of_lt this (by decide)
  have hall : (List.range 128).all (fun n => !(isNameStart (Char.ofNat n) && (Char.ofNat n).isDigit)) =
      true := by decide
  have hmem : c.toNat ∈ List.range 128 := List.mem_range.2 (UInt32.lt_iff_toNat_lt.1 hlt)
  have hc := List.all_eq_true.1 hall c.toNat hmem
  simp [Char.ofNat_toNat, h, hdigit] at hc

theorem startsWithDigit_of_isSimpleName (h : isSimpleName cs = true) (next : List Char) :
    startsWithDigit (cs ++ next) = false := by
  cases cs with
  | nil => cases h
  | cons c cs => exact isDigit_of_isNameStart (Bool.and_eq_true_iff.1 h).1

theorem phrase_segments {segments : List (List Char)} (hne : segments ≠ [])
    (h : areSegments segments = true) : Phrase Layout.Loose A (['.'].intercalate segments) ∧
      ∀ next, startsWithDigit (['.'].intercalate segments ++ next) = false := by
  induction segments with
  | nil => exact absurd rfl hne
  | cons s rest ih =>
    cases rest with
    | nil =>
      rw [List.intercalate_singleton]
      simp only [areSegments, Bool.or_eq_true, beq_iff_eq] at h
      rcases h with h | rfl
      · exact ⟨Layout.phrase_name h, startsWithDigit_of_isSimpleName h⟩
      · refine ⟨Phrase.mono (Layout.phrase_operator (by decide) ?_) id fun _ => Layout.Loose.unequal,
          fun _ => rfl⟩
        exact fun h => absurd h (by decide)
    | cons r rest =>
      obtain ⟨hs, hrest⟩ := Bool.and_eq_true_iff.1 h
      obtain ⟨hphrase, hdigit⟩ := ih (by simp) hrest
      rw [List.intercalate_cons_of_ne_nil (by simp), List.append_assoc]
      refine ⟨(Layout.phrase_name hs).append ?_ fun next _ => Layout.loose_point (hdigit next), ?_⟩
      · exact (Layout.phrase_mark (.inr rfl)).append hphrase fun _ _ => trivial
      · intro next
        rw [List.append_assoc]
        exact startsWithDigit_of_isSimpleName hs _

theorem phrase_qualifiedName (h : isQualifiedName cs = true) : Phrase Layout.Loose A cs := by
  unfold isQualifiedName at h
  have hcs : ['.'].intercalate (cs.splitOnP (· == '.')) = cs := List.intercalate_splitOn '.'
  split at h
  · next only honly =>
    rw [honly, List.intercalate_singleton] at hcs
    exact hcs ▸ Layout.phrase_name h
  · have hphrase := phrase_segments (A := A) (List.splitOnP_ne_nil _ cs) h
    exact hcs ▸ hphrase.1

/-! ## Types -/

namespace TypeRef

/-- All names in the type are dotted names. -/
inductive Named : TypeRef → Prop
  | mk {name : String} {args : List TypeRef} {dims : Nat} (h : isQualifiedName name.toList = true)
    (hargs : ∀ a ∈ args, Named a) : Named (.mk name args dims)

theorem isQualifiedName_of_readName {rest : List Char} {name : String}
    (h : readName cs = some (name, rest)) : isQualifiedName name.toList = true := by
  unfold readName at h
  split at h
  · next hname =>
    obtain ⟨hqualified, rfl⟩ := qualifiedName_eq_ok.1 hname
    cases h
    exact hqualified
  · cases h

/-- What is read as a type is made of dotted names. -/
theorem named_of_read (n : Nat) (cs : List Char) (hn : cs.length = n) :
    (∀ p, TypeRef.read cs = some p → p.1.1.Named) ∧
      ∀ p, readArgs cs = some p → ∀ t ∈ p.1.1, t.Named := by
  -- arguments are read behind a bracket, so both readings go on with a shorter text
  induction n using Nat.strong_induction_on generalizing cs with
  | _ n ih =>
  subst hn
  have hread : ∀ p, TypeRef.read cs = some p → p.1.1.Named := by
    intro p hp
    unfold TypeRef.read at hp
    split at hp
    · cases hp
    · next name rest hname =>
      have hlt : rest.length < cs.length := Nat.lt_of_succ_lt (readName_length_lt hname)
      split at hp
      · cases hp
      · next args rest' hr hargs =>
        cases hp
        exact .mk (isQualifiedName_of_readName hname) ((ih _ hlt rest rfl).2 _ hargs)
    · next name rest _ hname =>
      cases hp
      exact .mk (isQualifiedName_of_readName hname) (List.forall_mem_nil _)
  refine ⟨hread, fun p hp => ?_⟩
  unfold readArgs at hp
  split at hp
  · cases hp
  · next first rest hlt hfirst =>
    split at hp
    · next more hmore =>
      have hless : more.length < cs.length := Nat.lt_trans (Text.length_lt_of_trimStart hmore) hlt
      split at hp
      · cases hp
      · next others rest' hr hothers =>
        cases hp
        exact List.forall_mem_cons.2 ⟨hread _ hfirst, (ih _ hless more rfl).2 _ hothers⟩
    · cases hp
      exact List.forall_mem_singleton.2 (hread _ hfirst)
    · cases hp

theorem named_of_parse {t : TypeRef} (h : parse s = .ok t) : t.Named := by
  simp only [parse] at h
  split at h
  · cases h
  · split at h
    · next hread =>
      split at h
      · cases h
        exact (named_of_read _ _ rfl).1 _ hread
      · cases h
    · cases h

end TypeRef

theorem phrase_commaList {parts : List String}
    (h : ∀ p ∈ parts, Phrase Layout.Loose A p.toList) :
    Phrase Layout.Loose A (commaList parts).toList := by
  rw [commaList, String.toList_intercalate]
  induction parts with
  | nil => exact Layout.phrase_nil
  | cons p parts ih =>
    obtain ⟨hp, hparts⟩ := List.forall_mem_cons.1 h
    cases parts with
    | nil =>
      rw [List.map_singleton, List.intercalate_singleton]
      exact hp
    | cons q parts =>
      rw [List.map_cons, List.intercalate_cons_of_ne_nil (by simp), List.append_assoc]
      have hcomma : Phrase Layout.Whatever A [','] := Layout.phrase_mark (.inl rfl)
      exact hp.append_cons (hcomma.append (ih hparts).blank fun _ _ => trivial) (by decide)

theorem phrase_dims (dims : Nat) : Phrase Layout.Loose A (String.join (List.replicate dims "[]")).toList ∧
    ∀ next, Layout.Loose next →
      Layout.Loose ((String.join (List.replicate dims "[]")).toList ++ next) := by
  rw [String.toList_join]
  induction dims with
  | zero => exact ⟨Layout.phrase_nil, fun _ h => h⟩
  | succ n ih =>
    rw [List.replicate_succ, List.flatMap_cons]
    have hpair : Phrase Layout.Whatever A ('[' :: ([] ++ [']'])) :=
      Layout.phrase_nil.group .square
    exact ⟨hpair.append ih.1 fun _ _ => trivial, fun _ _ => Layout.loose_of_mem (by decide) _⟩

theorem TypeRef.Named.unequal {t : TypeRef} (h : t.Named) (next : List Char) :
    Layout.Unequal (t.text.toList ++ next) := by
  cases h with
  | @mk name args dims hname _ =>
    obtain ⟨c, rest, hcs, hc⟩ := exists_cons_of_isQualifiedName hname
    simp only [TypeRef.text, String.toList_append, hcs, List.cons_append, Layout.Unequal,
      List.head?_cons, ne_eq, Option.some.injEq]
    rintro rfl
    revert hc
    decide

theorem unequal_commaList {t : TypeRef} (h : t.Named) (ts : List TypeRef) (next : List Char) :
    Layout.Unequal ((commaList ((t :: ts).map TypeRef.text)).toList ++ next) := by
  rw [commaList, String.toList_intercalate, List.map_cons, List.map_cons]
  cases ts with
  | nil =>
    rw [List.map_nil, List.map_nil, List.intercalate_singleton]
    exact h.unequal next
  | cons t' ts =>
    rw [List.intercalate_cons_of_ne_nil (by simp), List.append_assoc, List.append_assoc]
    exact h.unequal _

theorem toList_text (name : String) (args : List TypeRef) (dims : Nat) :
    (TypeRef.mk name args dims).text.toList = name.toList ++
      ((if args.isEmpty then [] else '<' :: ((commaList (args.map TypeRef.text)).toList ++ ['>'])) ++
        (String.join (List.replicate dims "[]")).toList) := by
  rw [TypeRef.text, TypeRef.texts_eq_map]
  split
  · simp
  · simp [commaList, String.toList_append]

theorem TypeRef.Named.phrase {t : TypeRef} (h : t.Named) :
    Phrase Layout.Loose A t.text.toList := by
  induction h with
  | @mk name args dims hname hnamed ih =>
    obtain ⟨hdims, hseam⟩ := phrase_dims (A := A) dims
    have hphrase := phrase_qualifiedName (A := A) hname
    rw [toList_text]
    cases args with
    | nil => exact hphrase.append hdims hseam
    | cons a args =>
      have hargs : Phrase Layout.Loose A (commaList ((a :: args).map TypeRef.text)).toList := by
        refine phrase_commaList fun p hp => ?_
        obtain ⟨t, ht, rfl⟩ := List.mem_map.1 hp
        exact ih t ht
      have hbracket {c : Char} (hc : c ∈ Layout.operators) (hne : c ≠ '=') :
          Phrase Layout.Unequal A [c] :=
        Layout.phrase_operator hc fun h => absurd h hne
      have hclose := (hbracket (c := '>') (by decide) (by decide)).append hdims
        fun next hn => (hseam next hn).unequal
      have hinner := hargs.append_cons hclose (by decide)
      have hopen := (hbracket (c := '<') (by decide) (by decide)).append hinner fun next _ => by
        rw [List.append_assoc]
        exact unequal_commaList (hnamed a List.mem_cons_self) args _
      have hwhole := hphrase.append_cons hopen (by decide)
      simpa using hwhole

/-! ## Annotations -/

/-- The value is a text, a word or the class of a type. -/
inductive AttributeValue.Regular : AttributeValue → Prop
  | string (value : String) : Regular (.string value)
  | verbatim {value : String} (hne : value.toList ≠ [])
    (h : ∀ c ∈ value.toList, isWordChar c = true) : Regular (.verbatim value)
  | classOf {type : TypeRef} (h : type.Named) : Regular (.classOf type)

/-- The annotation has a name, its attributes have names, and their values are regular. -/
structure Marker.Regular (m : Marker) : Prop where
  name : isSimpleName m.name.toList = true
  declares : m.name.toList ≠ "interface".toList
  keys : ∀ a ∈ m.attributes, isSimpleName a.key.toList = true
  values : ∀ a ∈ m.attributes, a.value.Regular

theorem AttributeValue.Regular.phrase {v : AttributeValue} (h : v.Regular) :
    Phrase Layout.Loose A v.text.toList := by
  cases h with
  | string value =>
    have hstring := Layout.phrase_string (A := A) value.toList
    have htext : (AttributeValue.string value).text.toList =
        '"' :: (value.toList.flatMap escapedChar ++ ['"']) := by
      simp [AttributeValue.text, escaped, String.toList_append]
    rw [htext]
    exact hstring.mono id fun _ _ => trivial
  | verbatim hne h =>
    rw [AttributeValue.text]
    exact Layout.phrase_word hne h
  | @classOf type h =>
    have htext : (AttributeValue.classOf type).text.toList = type.text.toList ++ (['.'] ++ "class".toList) := by
      rw [AttributeValue.text, String.toList_append]
      rfl
    have hclass : Phrase Layout.Whatever A ['.'] := Layout.phrase_mark (.inr rfl)
    have hword : Phrase Layout.Loose A "class".toList :=
      Layout.phrase_word (by decide) (List.all_eq_true.1 (by decide))
    have hmember := hclass.append hword fun _ _ => trivial
    rw [htext]
    exact h.phrase.append hmember fun _ _ => Layout.loose_point rfl

theorem phrase_attribute {a : Attribute} (hkey : isSimpleName a.key.toList = true)
    (h : a.value.Regular) : Phrase Layout.Loose True (a.key ++ " = " ++ a.value.text).toList := by
  have hassign : Phrase Layout.Unequal True ['='] := Layout.phrase_operator (by decide) fun _ => trivial
  have hvalue : Phrase Layout.Loose True (' ' :: a.value.text.toList) := h.phrase.blank
  have hbehind := (hassign.append hvalue fun _ _ => by simp [Layout.Unequal]).blank
  have hwhole := (Layout.phrase_name hkey).append_cons hbehind (by decide)
  simpa [String.toList_append] using hwhole

theorem Marker.Regular.sheet {m : Marker} (h : m.Regular) : Sheet [m.text.toList] := by
  have hattribute {a : Attribute} (ha : a ∈ m.attributes) :
      Phrase Layout.Loose True (a.key ++ " = " ++ a.value.text).toList :=
    phrase_attribute (h.keys a ha) (h.values a ha)
  have hargs {text : String} (hp : Phrase Layout.Loose True text.toList) :
      Sheet [("@" ++ m.name ++ "(" ++ text ++ ")").toList] := by
    have hsheet := hp.marker h.name h.declares
    simpa [String.toList_append] using hsheet
  unfold Marker.text
  split
  · have hsheet := Layout.sheet_marker h.name h.declares
    simpa [String.toList_append] using hsheet
  · next only honly =>
    have hmem : only ∈ m.attributes := by simp [honly]
    split
    · exact hargs (h.values only hmem).phrase
    · exact hargs (hattribute hmem)
  · refine hargs (phrase_commaList fun p hp => ?_)
    obtain ⟨a, ha, rfl⟩ := List.mem_map.1 hp
    exact hattribute ha

theorem sheet_markers {ms : List Marker} (h : ∀ m ∈ ms, m.Regular) :
    Sheet ((ms.map Marker.text).map String.toList) := by
  rw [List.map_map, List.map_eq_flatMap]
  exact Layout.sheet_flatMap fun m hm => (h m hm).sheet

/-! ## Members -/

theorem Modifier.canonical_ne_nil {ms : List Modifier} (h : ms ≠ []) : Modifier.canonical ms ≠ [] := by
  obtain ⟨m, rest, rfl⟩ := List.exists_cons_of_ne_nil h
  refine List.ne_nil_of_mem (a := m) (List.mem_filter.2 ⟨?_, by simp⟩)
  cases m <;> decide

theorem Modifier.word_spec (m : Modifier) : m.word.toList ≠ [] ∧
    (∀ c ∈ m.word.toList, isWordChar c = true) ∧ m.word.toList ∉ Layout.continuations ∧
      m.word.toList ≠ "import".toList := by
  have hword (cs : List Char) (h : cs.all isWordChar = true) : ∀ c ∈ cs, isWordChar c = true :=
    List.all_eq_true.1 h
  cases m <;> exact ⟨by decide, hword _ (by decide), by decide, by decide⟩

theorem phrase_modifiers (ms : List Modifier) (h : Phrase Layout.Loose A cs) :
    Phrase Layout.Loose A (ms.flatMap (fun m => m.word.toList ++ [' ']) ++ cs) := by
  induction ms with
  | nil => exact h
  | cons m ms ih =>
    obtain ⟨hne, hword, -, -⟩ := m.word_spec
    have hphrase := (Layout.phrase_word (A := A) hne hword).append_cons ih.blank (by decide)
    simpa using hphrase

theorem opening_modifiers {ms : List Modifier} (hms : ms ≠ []) (h : Phrase Layout.Loose A cs) :
    Opening A ((modifierText ms).toList ++ cs) := by
  have htext : (modifierText ms).toList =
      (Modifier.canonical ms).flatMap fun m => m.word.toList ++ [' '] := by
    rw [modifierText, String.toList_join, List.flatMap_map]
    exact List.flatMap_congr fun m _ => String.toList_append
  obtain ⟨m, rest, hrest⟩ := List.exists_cons_of_ne_nil (Modifier.canonical_ne_nil hms)
  obtain ⟨hne, hword, hno, himport⟩ := m.word_spec
  have hopening := (phrase_modifiers rest h).blank.opening hne hword hno himport
    fun _ _ => Layout.loose_of_mem (by decide) _
  rw [htext, hrest]
  simpa using hopening

theorem TypeRef.Named.phrase_name {t : TypeRef} (ht : t.Named) (hs : isSimpleName s.toList = true) :
    Phrase Layout.Loose A (t.text.toList ++ ' ' :: s.toList) :=
  ht.phrase.append_cons (Layout.phrase_name hs).blank (by decide)

/-- Parameters have names, and their types are made of names. -/
def AreParameters (ps : List Parameter) : Prop :=
  ∀ p ∈ ps, isSimpleName p.name.toList = true ∧ p.type.Named

theorem AreParameters.phrase {ps : List Parameter} (h : AreParameters ps) :
    Phrase Layout.Loose A (parameterText ps).toList := by
  refine phrase_commaList fun q hq => ?_
  obtain ⟨p, hp, rfl⟩ := List.mem_map.1 hq
  obtain ⟨hname, htype⟩ := h p hp
  have hphrase := htype.phrase_name (A := A) hname
  simpa [String.toList_append] using hphrase

/-- The statement is an expression. -/
inductive Statement.Regular : Statement → Prop
  | expression {text : String} (h : Opening True text.toList) : Regular (.expression text)

theorem sheet_statements {body : List Statement} (h : ∀ b ∈ body, b.Regular) :
    Sheet ((Statement.listLines body).map String.toList) := by
  induction body with
  | nil => exact Layout.sheet_nil
  | cons b body ih =>
    obtain ⟨hb, hbody⟩ := List.forall_mem_cons.1 h
    rw [Statement.listLines, List.map_append]
    refine Sheet.append ?_ (ih hbody)
    cases hb with
    | expression hopening =>
      simpa [Statement.lines, String.toList_append] using hopening.statement

structure FieldDecl.Regular (f : FieldDecl) : Prop where
  name : isSimpleName f.name.toList = true
  modifiers : f.modifiers ≠ []
  markers : ∀ m ∈ f.markers, m.Regular
  type : f.type.Named
  value : ∀ v, f.initialValue = some v → Phrase Layout.Loose True v.toList

structure ConstructorDecl.Regular (c : ConstructorDecl) : Prop where
  name : isSimpleName c.name.toList = true
  modifiers : c.modifiers ≠ []
  parameters : AreParameters c.parameters
  body : ∀ b ∈ c.body, b.Regular

structure MethodDecl.Regular (m : MethodDecl) : Prop where
  name : isSimpleName m.name.toList = true
  modifiers : m.modifiers ≠ []
  markers : ∀ m' ∈ m.markers, m'.Regular
  parameters : AreParameters m.parameters
  type : m.returnType.Named
  body : ∀ body, m.body = some body → ∀ b ∈ body, b.Regular

theorem sheet_braced {header : String} {lines : List String} (h : Opening False header.toList)
    (hlines : Sheet (lines.map String.toList)) : Sheet ((braced header lines).map String.toList) := by
  have hblock := h.block hlines
  simpa [braced, String.toList_append] using hblock

theorem FieldDecl.Regular.sheet {f : FieldDecl} (h : f.Regular) :
    Sheet (f.lines.map String.toList) := by
  have hname := h.type.phrase_name (A := True) h.name
  have hopening := opening_modifiers h.modifiers hname
  rw [FieldDecl.lines, List.map_append]
  refine (sheet_markers h.markers).append ?_
  cases hv : f.initialValue with
  | none => simpa [String.toList_append] using hopening.statement
  | some v =>
    have hassign : Phrase Layout.Unequal True ['='] :=
      Layout.phrase_operator (by decide) fun _ => trivial
    have hvalue := (hassign.append (h.value v hv).blank fun _ _ => by simp [Layout.Unequal]).blank
    have hwhole := hopening.append hvalue fun _ _ => Layout.loose_of_mem (by decide) _
    simpa [String.toList_append] using hwhole.statement

theorem AreParameters.group {ps : List Parameter} (h : AreParameters ps) :
    Phrase Layout.Loose A ('(' :: ((parameterText ps).toList ++ [')'])) :=
  (h.phrase.group .paren).mono id fun _ _ => trivial

theorem ConstructorDecl.Regular.sheet {c : ConstructorDecl} (h : c.Regular) :
    Sheet (c.lines.map String.toList) := by
  have hname : Phrase Layout.Loose False c.name.toList := Layout.phrase_name h.name
  have hopening := opening_modifiers h.modifiers (hname.append_cons h.parameters.group (by decide))
  exact sheet_braced (by simpa [String.toList_append] using hopening) (sheet_statements h.body)

theorem MethodDecl.Regular.sheet {m : MethodDecl} (h : m.Regular) :
    Sheet (m.lines.map String.toList) := by
  have hheader {A : Prop} : Opening A (modifierText m.modifiers ++ m.returnType.text ++ " " ++
      m.name ++ "(" ++ parameterText m.parameters ++ ")").toList := by
    have hname := h.type.phrase_name (A := A) h.name
    have hopening := opening_modifiers h.modifiers (hname.append_cons h.parameters.group (by decide))
    simpa [String.toList_append] using hopening
  rw [MethodDecl.lines, List.map_append]
  refine (sheet_markers h.markers).append ?_
  cases hb : m.body with
  | none => simpa [String.toList_append] using hheader.statement
  | some body => exact sheet_braced hheader (sheet_statements (h.body body hb))

/-! ## Types as declarations -/

theorem phrase_super (keyword : String) (hne : keyword.toList ≠ [])
    (hword : ∀ c ∈ keyword.toList, isWordChar c = true) {types : List TypeRef}
    (h : ∀ t ∈ types, t.Named) : Phrase Layout.Loose A (superText keyword types).toList ∧
      ∀ next, Layout.Loose next → Layout.Loose ((superText keyword types).toList ++ next) := by
  unfold superText
  split
  · exact ⟨Layout.phrase_nil, fun _ h => h⟩
  · have htypes : Phrase Layout.Loose A (commaList (types.map TypeRef.text)).toList := by
      refine phrase_commaList fun p hp => ?_
      obtain ⟨t, ht, rfl⟩ := List.mem_map.1 hp
      exact (h t ht).phrase
    have hphrase := ((Layout.phrase_word hne hword).append_cons htypes.blank (by decide)).blank
    have htext : (" " ++ keyword ++ " " ++ commaList (types.map TypeRef.text)).toList =
        ' ' :: (keyword.toList ++ ' ' :: (commaList (types.map TypeRef.text)).toList) := by
      simp [String.toList_append]
    rw [htext]
    exact ⟨hphrase, fun _ _ => Layout.loose_of_mem (by decide) _⟩

inductive Member.Regular : Member → Prop
  | field {decl : FieldDecl} (h : decl.Regular) : Regular (.field decl)
  | constructor {decl : ConstructorDecl} (h : decl.Regular) : Regular (.constructor decl)
  | method {decl : MethodDecl} (h : decl.Regular) : Regular (.method decl)

theorem Member.Regular.sheet {m : Member} (h : m.Regular) : Sheet (m.lines.map String.toList) := by
  cases h with
  | field h => exact h.sheet
  | constructor h => exact h.sheet
  | method h => exact h.sheet

theorem sheet_members {members : List Member} (h : ∀ m ∈ members, m.Regular) :
    Sheet ((members.flatMap Member.lines).map String.toList) := by
  rw [List.map_flatMap]
  exact Layout.sheet_flatMap fun m hm => (h m hm).sheet

structure ClassDecl.Regular (c : ClassDecl) : Prop where
  name : isSimpleName c.name.toList = true
  modifiers : c.modifiers ≠ []
  markers : ∀ m ∈ c.markers, m.Regular
  superClass : ∀ t ∈ c.superClass.toList, t.Named
  interfaces : ∀ t ∈ c.interfaces, t.Named
  members : ∀ m ∈ c.members, m.Regular

structure InterfaceDecl.Regular (i : InterfaceDecl) : Prop where
  name : isSimpleName i.name.toList = true
  modifiers : i.modifiers ≠ []
  markers : ∀ m ∈ i.markers, m.Regular
  supers : ∀ t ∈ i.supers, t.Named
  members : ∀ m ∈ i.members, m.Regular

theorem phrase_header (keyword : String) (hne : keyword.toList ≠ [])
    (hword : ∀ c ∈ keyword.toList, isWordChar c = true) (hname : isSimpleName s.toList = true)
    (hds : Phrase Layout.Loose A ds)
    (hseam : ∀ next, Layout.Loose next → Layout.Loose (ds ++ next)) :
    Phrase Layout.Loose A (keyword.toList ++ ' ' :: (s.toList ++ ds)) :=
  (Layout.phrase_word hne hword).append_cons ((Layout.phrase_name hname).append hds hseam).blank
    (by decide)

theorem ClassDecl.Regular.sheet {c : ClassDecl} (h : c.Regular) :
    Sheet (c.lines.map String.toList) := by
  obtain ⟨hextends, hseam⟩ := phrase_super (A := False) "extends" (by decide)
    (List.all_eq_true.1 (by decide)) h.superClass
  obtain ⟨himplements, hseam'⟩ := phrase_super (A := False) "implements" (by decide)
    (List.all_eq_true.1 (by decide)) h.interfaces
  have hsupers := hextends.append himplements hseam'
  have hheader := phrase_header "class" (by decide) (List.all_eq_true.1 (by decide)) h.name
    hsupers fun next hn => by
      rw [List.append_assoc]
      exact hseam _ (hseam' next hn)
  have hopening := opening_modifiers h.modifiers hheader
  rw [ClassDecl.lines, List.map_append]
  refine (sheet_markers h.markers).append (sheet_braced ?_ (sheet_members h.members))
  simpa [String.toList_append] using hopening

theorem InterfaceDecl.Regular.sheet {i : InterfaceDecl} (h : i.Regular) :
    Sheet (i.lines.map String.toList) := by
  obtain ⟨hextends, hseam⟩ := phrase_super (A := False) "extends" (by decide)
    (List.all_eq_true.1 (by decide)) h.supers
  have hheader := phrase_header "interface" (by decide) (List.all_eq_true.1 (by decide))
    h.name hextends hseam
  have hopening := opening_modifiers h.modifiers hheader
  rw [InterfaceDecl.lines, List.map_append]
  refine (sheet_markers h.markers).append (sheet_braced ?_ (sheet_members h.members))
  simpa [String.toList_append] using hopening

inductive TypeDecl.Regular : TypeDecl → Prop
  | classDecl {decl : ClassDecl} (h : decl.Regular) : Regular (.classDecl decl)
  | interfaceDecl {decl : InterfaceDecl} (h : decl.Regular) : Regular (.interfaceDecl decl)

theorem TypeDecl.Regular.sheet {d : TypeDecl} (h : d.Regular) :
    Sheet (d.lines.map String.toList) := by
  cases h with
  | classDecl h => exact h.sheet
  | interfaceDecl h => exact h.sheet

/-! ## Units -/

theorem Comment.rank_item (c : Comment) : c.item.rank = 100 := by cases c <;> rfl

theorem CompilationUnit.pairwise_rank (u : CompilationUnit) :
    u.items.Pairwise fun a b => a.rank ≤ b.rank := by
  have hpackage (name : String) : (Item.packageDecl name).rank = 0 := rfl
  have himport (name : String) : (Item.importDecl name).rank = 1 := rfl
  have hdoc (lines : List String) : (Item.doc lines).rank = 2 := rfl
  have hdecl (decl : TypeDecl) : (Item.typeDecl decl).rank = 3 := rfl
  rw [CompilationUnit.items]
  cases u.doc <;>
    simp [List.pairwise_append, List.pairwise_map, List.pairwise_of_forall, Comment.rank_item,
      hpackage, himport, hdoc, hdecl]

theorem CompilationUnit.lines_eq (u : CompilationUnit) : u.lines = u.items.flatMap Item.lines := by
  rw [CompilationUnit.lines, List.mergeSort_of_pairwise (u.pairwise_rank.imp decide_eq_true)]

/-- The text of an item, with a line feed behind every line. -/
def Item.text (i : Item) : String := String.join (i.lines.map (· ++ "\n"))

theorem CompilationUnit.text_of_items (u : CompilationUnit) :
    u.text = String.join (u.items.map Item.text) := by
  rw [CompilationUnit.text, CompilationUnit.lines_eq, ← String.toList_inj]
  simp only [String.toList_join, List.flatMap_map, List.flatMap_assoc, Item.text]

end JpaScaffold.Java
