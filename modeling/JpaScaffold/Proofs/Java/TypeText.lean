import JpaScaffold.Proofs.Java.UnitSource

/-!
# Types read back

The text of a type is read as that type, with blanks in front and in front of a comma or a closing
angle bracket. What is read as a type has the characters of the type's text, in their order and with
blanks at will. So the types that can be made are those whose names are dotted names, and each of
them is the type that its own text writes.
-/
namespace JpaScaffold.Java.TypeRef

open Text (isBlank)

variable {t : TypeRef} {cs rest gap : List Char} {name : String} {args : List TypeRef}

/-- Types are made from texts, and from texts whose type is given other type arguments. -/
inductive Made : TypeRef → Prop
  | parsed {source : String} {t : TypeRef} (h : parse source = .ok t) : Made t
  | applied {source : String} {args : List TypeRef} {t : TypeRef} (hargs : ∀ a ∈ args, Made a)
    (h : generic source args = .ok t) : Made t

theorem named_of_made (h : Made t) : t.Named := by
  induction h with
  | parsed h => exact named_of_parse h
  | applied _ h ih =>
    obtain ⟨t', ht', rfl⟩ := map_eq_ok.1 h
    cases named_of_parse ht' with
    | mk hname _ => exact .mk hname ih

/-! ## The text of a type, read in front of another text -/

/-- Behind a type argument: nothing, a comma or the closing bracket. -/
def Closed (rest : List Char) : Prop := ∀ c, rest.head? = some c → c = ',' ∨ c = '>'

theorem closed_nil : Closed [] := fun _ h => nomatch h

theorem readDims_of_closed (h : Closed rest) : readDims rest = (0, rest) := by
  cases rest with
  | nil => exact readDims_nil
  | cons c rest =>
    have hstart : Text.trimStart (c :: rest) = c :: rest := by
      refine Text.trimStart_eq_self fun d hd => ?_
      rcases h d hd with rfl | rfl <;> decide
    unfold readDims
    split
    · next inner hinner =>
      rw [hstart] at hinner
      cases hinner
      rcases h '[' rfl with h | h <;> cases h
    · rfl

theorem readDims_pair (cs : List Char) :
    readDims ('[' :: ']' :: cs) = ((readDims cs).1 + 1, (readDims cs).2) := by
  conv_lhs => unfold readDims
  have hopen : Text.trimStart ('[' :: ']' :: cs) = '[' :: ']' :: cs :=
    Text.trimStart_eq_self fun d hd => by cases hd; decide
  have hclose : Text.trimStart (']' :: cs) = ']' :: cs :=
    Text.trimStart_eq_self fun d hd => by cases hd; decide
  split
  · next inner hinner =>
    rw [hopen] at hinner
    cases hinner
    split
    · next hrest =>
      rw [hclose] at hrest
      cases hrest
      rfl
    · next hrest => exact absurd hclose (hrest _)
  · next hinner => exact absurd hopen (hinner _)

theorem readDims_text (dims : Nat) (h : Closed rest) :
    readDims ((String.join (List.replicate dims "[]")).toList ++ rest) = (dims, rest) := by
  rw [String.toList_join]
  induction dims with
  | zero => exact readDims_of_closed h
  | succ n ih =>
    rw [List.replicate_succ, List.flatMap_cons, List.append_assoc]
    have hpair : "[]".toList = ['[', ']'] := rfl
    rw [hpair, List.cons_append, List.cons_append, List.nil_append, readDims_pair, ih]

theorem endsName_of_isQualifiedName (h : isQualifiedName cs = true) :
    ∀ c ∈ cs, endsName c = false := by
  intro c hc
  have hjoin : ['.'].intercalate (cs.splitOnP (· == '.')) = cs := List.intercalate_splitOn '.'
  rw [← hjoin] at hc
  rcases mem_intercalate hc with rfl | ⟨s, hs, hmem⟩
  · decide
  · rcases simple_or_star_of_isQualifiedName h s hs with hsimple | rfl
    · exact endsName_of_isWordChar (isWordChar_of_isSimpleName hsimple c hmem)
    · rw [List.mem_singleton.1 hmem]
      decide

theorem endsName_of_isBlank {c : Char} (h : isBlank c = true) : endsName c = false := by
  by_contra hends
  rcases eq_of_endsName (eq_true_of_ne_false hends) with rfl | rfl | rfl | rfl <;> revert h <;> decide

/-- A dotted name is read up to the character that ends it. -/
theorem readName_text (hname : isQualifiedName name.toList = true)
    (hgap : ∀ c ∈ gap, isBlank c = true) (hrest : ∀ c, rest.head? = some c → endsName c = true) :
    readName (gap ++ name.toList ++ rest) = some (name, rest) := by
  have hkept : ∀ c ∈ gap ++ name.toList, (!endsName c) = true := by
    intro c hc
    rw [Bool.not_eq_true']
    rcases List.mem_append.1 hc with hc | hc
    · exact endsName_of_isBlank (hgap c hc)
    · exact endsName_of_isQualifiedName hname c hc
  have htake : rest.takeWhile (!endsName ·) = [] := by
    cases rest with
    | nil => rfl
    | cons c rest => simp [hrest c rfl]
  have hdrop : rest.dropWhile (!endsName ·) = rest := by
    cases rest with
    | nil => rfl
    | cons c rest => simp [hrest c rfl]
  have hblank := isBlank_of_isQualifiedName hname
  have htrim : Text.trim (gap ++ name.toList) = name.toList := by
    rw [Text.trim_blanks hgap]
    exact (⟨fun c hc => hblank c (List.mem_of_mem_head? hc),
      fun c hc => hblank c (List.mem_of_mem_getLast? hc)⟩ : Text.Trimmed name.toList).trim_eq
  rw [readName, List.takeWhile_append_of_pos hkept, List.dropWhile_append_of_pos hkept, htake, hdrop,
    List.append_nil, htrim, String.ofList_toList, qualifiedName_eq_ok.2 ⟨hname, rfl⟩]

/-- A type stands in front of a text, and the text `rest` behind it. -/
def Finds (cs : List Char) (t : TypeRef) (rest : List Char) : Prop :=
  (TypeRef.read cs).map Subtype.val = some (t, rest)

/-- Type arguments stand in front of a text up to the closing bracket, and the text `rest` behind it.
-/
def FindsArgs (cs : List Char) (args : List TypeRef) (rest : List Char) : Prop :=
  (readArgs cs).map Subtype.val = some (args, rest)

theorem finds_iff : Finds cs t rest ↔ ∃ hlt, TypeRef.read cs = some ⟨(t, rest), hlt⟩ := by
  simp [Finds]

theorem findsArgs_iff : FindsArgs cs args rest ↔ ∃ hlt, readArgs cs = some ⟨(args, rest), hlt⟩ := by
  simp [FindsArgs]

theorem finds_applied {rest' : List Char} (hname : readName cs = some (name, '<' :: rest))
    (hargs : FindsArgs rest args rest') :
    Finds cs (.mk name args (readDims rest').1) (readDims rest').2 := by
  obtain ⟨hlt, hargs⟩ := findsArgs_iff.1 hargs
  unfold Finds TypeRef.read
  split
  · next h => cases hname.symm.trans h
  · next h =>
    cases hname.symm.trans h
    rw [hargs]
    rfl
  · next hne h =>
    cases hname.symm.trans h
    exact absurd rfl (hne _)

theorem finds_bare (hname : readName cs = some (name, rest)) (hrest : rest.head? ≠ some '<') :
    Finds cs (.mk name [] (readDims rest).1) (readDims rest).2 := by
  unfold Finds TypeRef.read
  split
  · next h => cases hname.symm.trans h
  · next h =>
    cases hname.symm.trans h
    exact absurd rfl hrest
  · next h =>
    cases hname.symm.trans h
    rfl

theorem findsArgs_last (h : Finds cs t ('>' :: rest)) : FindsArgs cs [t] rest := by
  obtain ⟨hlt, hread⟩ := finds_iff.1 h
  have hstart : Text.trimStart ('>' :: rest) = '>' :: rest :=
    Text.trimStart_eq_self fun d hd => by cases hd; decide
  unfold FindsArgs readArgs
  split
  · next h => cases hread.symm.trans h
  · next h =>
    cases hread.symm.trans h
    split
    · next h => cases hstart.symm.trans h
    · next h =>
      cases hstart.symm.trans h
      rfl
    · next hne => exact absurd hstart (hne _)

theorem findsArgs_cons {more : List Char} (h : Finds cs t (',' :: more))
    (hargs : FindsArgs more args rest) : FindsArgs cs (t :: args) rest := by
  obtain ⟨hlt, hread⟩ := finds_iff.1 h
  obtain ⟨hlt', hargs⟩ := findsArgs_iff.1 hargs
  have hstart : Text.trimStart (',' :: more) = ',' :: more :=
    Text.trimStart_eq_self fun d hd => by cases hd; decide
  unfold FindsArgs readArgs
  split
  · next h => cases hread.symm.trans h
  · next h =>
    cases hread.symm.trans h
    split
    · next h =>
      cases hstart.symm.trans h
      rw [hargs]
      rfl
    · next h => cases hstart.symm.trans h
    · next hne _ => exact absurd hstart (hne _)

/-- The type stands in front of every text that begins with its own, behind blanks at will. -/
def Readable (t : TypeRef) : Prop :=
  ∀ gap rest : List Char, (∀ c ∈ gap, isBlank c = true) → Closed rest →
    Finds (gap ++ t.text.toList ++ rest) t rest

theorem findsArgs_texts (hargs : ∀ a ∈ t :: args, Readable a) (hgap : ∀ c ∈ gap, isBlank c = true) :
    FindsArgs (gap ++ (commaList ((t :: args).map text)).toList ++ '>' :: rest) (t :: args) rest := by
  induction args generalizing t gap with
  | nil =>
    refine findsArgs_last ?_
    have hread := hargs t (by simp) gap ('>' :: rest) hgap fun c hc => by cases hc; exact .inr rfl
    simpa [commaList] using hread
  | cons a args ih =>
    obtain ⟨ht, hargs⟩ := List.forall_mem_cons.1 hargs
    have hspace : ∀ c ∈ [' '], isBlank c = true := List.forall_mem_singleton.2 (by decide)
    refine findsArgs_cons ?_ (ih hargs hspace)
    have hread := ht gap (',' :: (' ' :: (commaList ((a :: args).map text)).toList ++ '>' :: rest))
      hgap fun c hc => by cases hc; exact .inl rfl
    simpa [commaList, String.toList_intercalate] using hread

theorem head_dims (dims : Nat) (h : Closed rest) : ∀ c,
    ((String.join (List.replicate dims "[]")).toList ++ rest).head? = some c →
      endsName c = true ∧ c ≠ '<' := by
  intro c hc
  rw [String.toList_join] at hc
  cases dims with
  | zero => rcases h c hc with rfl | rfl <;> decide
  | succ n =>
    cases hc
    decide

/-- A type whose names are dotted names is read back from its text. -/
theorem readable_of_named (h : t.Named) : Readable t := by
  induction h with
  | @mk name args dims hname _ ih =>
    intro gap rest hgap hrest
    have hdims := readDims_text dims hrest
    have hhead := head_dims dims hrest
    rw [toList_text]
    cases args with
    | nil =>
      have hread := readName_text hname hgap fun c hc => (hhead c hc).1
      have hfinds := finds_bare hread fun hc => (hhead _ hc).2 rfl
      rw [hdims] at hfinds
      simpa using hfinds
    | cons a args =>
      have hargs : FindsArgs ((commaList ((a :: args).map text)).toList ++
          '>' :: ((String.join (List.replicate dims "[]")).toList ++ rest)) (a :: args)
          ((String.join (List.replicate dims "[]")).toList ++ rest) :=
        findsArgs_texts ih (List.forall_mem_nil _)
      have hopen : ∀ c, ('<' :: ((commaList ((a :: args).map text)).toList ++ '>' ::
          ((String.join (List.replicate dims "[]")).toList ++ rest))).head? = some c →
            endsName c = true := by
        intro c hc
        cases hc
        decide
      have hfinds := finds_applied (readName_text hname hgap hopen) hargs
      rw [hdims] at hfinds
      simpa using hfinds

theorem isBlank_of_mem_dims (dims : Nat) :
    ∀ c ∈ (String.join (List.replicate dims "[]")).toList, isBlank c = false := by
  intro c hc
  rw [String.toList_join] at hc
  obtain ⟨pair, hpair, hc⟩ := List.mem_flatMap.1 hc
  rw [List.eq_of_mem_replicate hpair] at hc
  have hall : ∀ c ∈ "[]".toList, isBlank c = false := by
    have hmarks : ("[]".toList.all fun c => !isBlank c) = true := by decide
    simpa using List.all_eq_true.1 hmarks
  exact hall c hc

/-- The text of a type neither starts nor ends with a blank. -/
theorem trimmed_text (h : t.Named) : Text.Trimmed t.text.toList := by
  cases h with
  | @mk name args dims hname _ =>
    have hblank := isBlank_of_isQualifiedName hname
    obtain ⟨c, cs, hcs, -⟩ := exists_cons_of_isQualifiedName hname
    rw [toList_text]
    refine ⟨fun d hd => ?_, fun d hd => ?_⟩
    · rw [hcs] at hd
      cases hd
      exact hblank c (hcs ▸ List.mem_cons_self)
    · rw [List.getLast?_append, List.getLast?_append, Option.or_eq_some_iff,
        Option.or_eq_some_iff] at hd
      rcases hd with (hd | ⟨-, hd⟩) | ⟨-, hd⟩
      · exact isBlank_of_mem_dims dims d (List.mem_of_mem_getLast? hd)
      · split at hd
        · cases hd
        · rw [← List.cons_append, List.getLast?_concat] at hd
          cases hd
          decide
      · exact hblank d (List.mem_of_mem_getLast? hd)

theorem parse_trimmed {source : String} (h : t.Named)
    (hsource : Text.trim source.toList = t.text.toList) : parse source = .ok t := by
  have hread := readable_of_named h [] [] (List.forall_mem_nil _) closed_nil
  rw [List.nil_append, List.append_nil, ← hsource] at hread
  obtain ⟨hlt, hread⟩ := finds_iff.1 hread
  have hne : (Text.trim source.toList).isEmpty = false := by
    cases hcs : Text.trim source.toList with
    | nil =>
      rw [hcs] at hlt
      cases hlt
    | cons c cs => rfl
  simp only [parse, hne, hread]
  rfl

theorem parse_text (h : t.Named) : parse t.text = .ok t := parse_trimmed h (trimmed_text h).trim_eq

/-! ## The characters of a text that is read -/

/-- The text without its blanks. -/
def unblanked (cs : List Char) : List Char := cs.filter (!isBlank ·)

@[simp] theorem unblanked_append (cs ds : List Char) :
    unblanked (cs ++ ds) = unblanked cs ++ unblanked ds := List.filter_append ..

theorem unblanked_of_blanks (h : ∀ c ∈ gap, isBlank c = true) : unblanked gap = [] :=
  List.filter_eq_nil_iff.2 fun c hc => by simp [h c hc]

theorem unblanked_eq_self (h : ∀ c ∈ cs, isBlank c = false) : unblanked cs = cs :=
  List.filter_eq_self.2 fun c hc => by simp [h c hc]

@[simp] theorem unblanked_trimStart (cs : List Char) : unblanked (Text.trimStart cs) = unblanked cs := by
  have hgap : ∀ c ∈ cs.takeWhile isBlank, isBlank c = true := fun c hc => List.mem_takeWhile_imp hc
  conv_rhs => rw [← List.takeWhile_append_dropWhile (p := isBlank) (l := cs)]
  rw [unblanked_append, unblanked_of_blanks hgap]
  rfl

@[simp] theorem unblanked_trim (cs : List Char) : unblanked (Text.trim cs) = unblanked cs := by
  have hgap : ∀ c ∈ ((Text.trimStart cs).reverse.takeWhile isBlank).reverse, isBlank c = true :=
    fun c hc => List.mem_takeWhile_imp (List.mem_reverse.1 hc)
  rw [← unblanked_trimStart cs, ← Text.dropEndWhile_append_suffix isBlank (Text.trimStart cs),
    unblanked_append, unblanked_of_blanks hgap, List.append_nil]
  rfl

theorem unblanked_cons {c : Char} (h : isBlank c = false) (cs : List Char) :
    unblanked (c :: cs) = c :: unblanked cs :=
  List.filter_cons_of_pos (by simp [h])

theorem unblanked_of_readDims (cs : List Char) : unblanked cs =
    (String.join (List.replicate (readDims cs).1 "[]")).toList ++ unblanked (readDims cs).2 := by
  fun_induction readDims cs with
  | case1 cs inner hinner rest hrest _ _ r ih =>
    have hopen := unblanked_trimStart cs
    have hclose := unblanked_trimStart inner
    rw [hinner, unblanked_cons (by decide)] at hopen
    rw [hrest, unblanked_cons (by decide)] at hclose
    rw [← hopen, ← hclose, ih, String.toList_join, String.toList_join, List.replicate_succ,
      List.flatMap_cons]
    rfl
  | case2 => simp
  | case3 => simp

theorem unblanked_of_readName (h : readName cs = some (name, rest)) :
    unblanked cs = name.toList ++ unblanked rest := by
  have hqualified := isQualifiedName_of_readName h
  unfold readName at h
  split at h
  · next hname =>
    obtain ⟨-, rfl⟩ := qualifiedName_eq_ok.1 hname
    cases h
    rw [String.toList_ofList] at hqualified ⊢
    rw [← unblanked_eq_self (isBlank_of_isQualifiedName hqualified), unblanked_trim,
      ← unblanked_append, List.takeWhile_append_dropWhile]
  · cases h

theorem unblanked_text (h : isQualifiedName name.toList = true) (args : List TypeRef) (dims : Nat) :
    unblanked (TypeRef.mk name args dims).text.toList = name.toList ++
      ((if args.isEmpty then [] else
          '<' :: (unblanked (commaList (args.map text)).toList ++ ['>'])) ++
        (String.join (List.replicate dims "[]")).toList) := by
  rw [toList_text, unblanked_append, unblanked_append,
    unblanked_eq_self (isBlank_of_isQualifiedName h), unblanked_eq_self (isBlank_of_mem_dims dims)]
  split
  · rfl
  · rw [unblanked_cons (by decide), unblanked_append]
    rfl

theorem unblanked_commaList_cons (t a : TypeRef) (args : List TypeRef) :
    unblanked (commaList ((t :: a :: args).map text)).toList =
      unblanked t.text.toList ++ ',' :: unblanked (commaList ((a :: args).map text)).toList := by
  have hcomma : (commaList ((t :: a :: args).map text)).toList =
      t.text.toList ++ ',' :: ' ' :: (commaList ((a :: args).map text)).toList := by
    simp [commaList, String.toList_intercalate]
  rw [hcomma, unblanked_append, unblanked_cons (by decide)]
  rfl

/-- What is read as a type, or as type arguments, has the characters of its text. -/
theorem unblanked_of_read (n : Nat) (cs : List Char) (hn : cs.length = n) :
    (∀ p, TypeRef.read cs = some p →
        unblanked cs = unblanked p.1.1.text.toList ++ unblanked p.1.2) ∧
      ∀ p, readArgs cs = some p → p.1.1 ≠ [] ∧
        unblanked cs = unblanked (commaList (p.1.1.map text)).toList ++ '>' :: unblanked p.1.2 := by
  -- arguments are read behind a bracket, so both readings go on with a shorter text
  induction n using Nat.strong_induction_on generalizing cs with
  | _ n ih =>
  subst hn
  have hread : ∀ p, TypeRef.read cs = some p →
      unblanked cs = unblanked p.1.1.text.toList ++ unblanked p.1.2 := by
    intro p hp
    unfold TypeRef.read at hp
    split at hp
    · cases hp
    · next name rest hname =>
      have hlt : rest.length < cs.length := Nat.lt_of_succ_lt (readName_length_lt hname)
      split at hp
      · cases hp
      · next args rest' hr hargs =>
        cases hp
        obtain ⟨hne, hsame⟩ := (ih _ hlt rest rfl).2 _ hargs
        have hdims := unblanked_of_readDims rest'
        rw [unblanked_of_readName hname, unblanked_text (isQualifiedName_of_readName hname),
          unblanked_cons (by decide), hsame]
        simp only [hdims]
        simp [hne]
    · next name rest _ hname =>
      cases hp
      rw [unblanked_of_readName hname, unblanked_text (isQualifiedName_of_readName hname),
        unblanked_of_readDims rest]
      simp
  refine ⟨hread, fun p hp => ?_⟩
  unfold readArgs at hp
  split at hp
  · cases hp
  · next first rest hlt hfirst =>
    have hstart := hread _ hfirst
    have hrest := unblanked_trimStart rest
    split at hp
    · next more hmore =>
      have hless : more.length < cs.length := Nat.lt_trans (Text.length_lt_of_trimStart hmore) hlt
      split at hp
      · cases hp
      · next others rest' hr hothers =>
        cases hp
        obtain ⟨hne, hsame⟩ := (ih _ hless more rfl).2 _ hothers
        obtain ⟨a, args, rfl⟩ := List.exists_cons_of_ne_nil hne
        rw [hmore, unblanked_cons (by decide), hsame] at hrest
        refine ⟨List.cons_ne_nil _ _, ?_⟩
        rw [unblanked_commaList_cons, hstart, ← hrest]
        simp
    · next hclose =>
      cases hp
      rw [hclose, unblanked_cons (by decide)] at hrest
      refine ⟨List.cons_ne_nil _ _, ?_⟩
      rw [hstart, ← hrest]
      simp [commaList]
    · cases hp

theorem unblanked_of_parse {source : String} (h : parse source = .ok t) :
    unblanked t.text.toList = unblanked source.toList := by
  simp only [parse] at h
  split at h
  · cases h
  · split at h
    · next t' rest hlt hread =>
      split at h
      · next hrest =>
        cases h
        have hsame := (unblanked_of_read _ _ rfl).1 _ hread
        have hnil := unblanked_trim rest
        rw [List.isEmpty_iff.1 hrest] at hnil
        rw [unblanked_trim, ← hnil] at hsame
        rw [hsame]
        exact (List.append_nil _).symm
      · cases h
    · cases h

/-- The types that can be made are those whose names are dotted names. Each of them is read back from
its text, and no text writes a type of other characters than its own. -/
theorem made_types_read_back :
    (∀ t, Made t ↔ t.Named) ∧ (∀ t, Made t → parse t.text = .ok t) ∧
      ∀ source t, parse source = .ok t → unblanked t.text.toList = unblanked source.toList :=
  ⟨fun _ => ⟨named_of_made, fun h => .parsed (parse_text h)⟩,
    fun _ h => parse_text (named_of_made h), fun _ _ h => unblanked_of_parse h⟩

def listMaps : TypeRef :=
  .mk "Map" [.mk "String" [] 0, .mk "java.util.List" [.mk "Long" [] 1] 0] 1

theorem named_listMaps : listMaps.Named := by
  have hlong : (TypeRef.mk "Long" [] 1).Named := .mk (by decide) (List.forall_mem_nil _)
  have hlist : (TypeRef.mk "java.util.List" [.mk "Long" [] 1] 0).Named :=
    .mk (by decide) (List.forall_mem_singleton.2 hlong)
  have hstring : (TypeRef.mk "String" [] 0).Named := .mk (by decide) (List.forall_mem_nil _)
  exact .mk (by decide) (List.forall_mem_cons.2 ⟨hstring, List.forall_mem_singleton.2 hlist⟩)

theorem made_types_read_back_of_listMaps :
    Made listMaps ∧ parse listMaps.text = .ok listMaps ∧
      parse " Map<String, java.util.List<Long[]>>[] " = .ok listMaps ∧
      unblanked listMaps.text.toList =
        unblanked " Map<String, java.util.List<Long[]>>[] ".toList := by
  have hmade := (made_types_read_back.1 listMaps).2 named_listMaps
  have hread : parse " Map<String, java.util.List<Long[]>>[] " = .ok listMaps :=
    parse_trimmed named_listMaps (by decide)
  exact ⟨hmade, made_types_read_back.2.1 _ hmade, hread, made_types_read_back.2.2 _ _ hread⟩

end JpaScaffold.Java.TypeRef
