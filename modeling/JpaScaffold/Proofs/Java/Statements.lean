import JpaScaffold.Java.Render
import JpaScaffold.Proofs.Java.Build

/-!
# Statements from their texts

A statement is stored without the blanks around it and without the semicolons at its end, and it is
written with one semicolon behind it. Blanks and semicolons are each taken away only once, though:
where blanks stand between the semicolons at the end of a text, the semicolons in front of them
stay.
-/
namespace JpaScaffold.Java

open Text (Trimmed dropEndWhile isBlank trim trimEnd trimStart)

variable {cs bare lead gap semis trail : List Char} {s t : String} {role : Role}

/-! ## What is left of a text -/

def Blanks (cs : List Char) : Prop := ∀ c ∈ cs, isBlank c = true

def Semicolons (cs : List Char) : Prop := ∀ c ∈ cs, c = ';'

theorem Blanks.getLast?_ne (h : Blanks cs) : cs.getLast? ≠ some ';' := by
  intro hl
  have hb := h ';' (List.mem_of_getLast? hl)
  revert hb
  decide

theorem Semicolons.trimmed (h : Semicolons cs) : Trimmed cs where
  head c hc := by
    rw [h c (List.mem_of_head? hc)]
    decide
  last c hc := by
    rw [h c (List.mem_of_getLast? hc)]
    decide

/-- The parts of a text of which `bare` is left: blanks at both ends, which are taken away first,
then the semicolons at the end, and then the blanks in front of these. -/
structure Clipped (lead bare gap semis trail : List Char) : Prop where
  lead_blanks : Blanks lead
  core : Trimmed (bare ++ gap ++ semis)
  stem : (bare ++ gap).getLast? ≠ some ';'
  last : ∀ c, bare.getLast? = some c → isBlank c = false
  gap_blanks : Blanks gap
  semicolons : Semicolons semis
  trail_blanks : Blanks trail

theorem Clipped.trimmed (h : Clipped lead bare gap semis trail) : Trimmed bare := by
  refine ⟨fun c hc => h.core.head c ?_, h.last⟩
  rw [List.append_assoc, List.head?_append, hc, Option.some_or]

theorem Clipped.ne_nil (h : Clipped lead bare gap semis trail) (hlast : bare.getLast? = some ';') :
    gap ≠ [] ∧ semis ≠ [] := by
  have hgap : gap ≠ [] := by
    rintro rfl
    exact h.stem (by rwa [List.append_nil])
  refine ⟨hgap, ?_⟩
  rintro rfl
  have hend := List.getLast?_eq_getLast_of_ne_nil hgap
  have hblank := h.core.last (gap.getLast hgap) (by simp [List.getLast?_append, hend])
  rw [h.gap_blanks _ (List.getLast_mem hgap)] at hblank
  cases hblank

theorem clipped_of_last (hlead : Blanks lead) (hhead : ∀ c, bare.head? = some c → isBlank c = false)
    (hlast : bare.getLast? = some ';') (hgap : gap ≠ []) (hblanks : Blanks gap)
    (hsemis : semis ≠ []) (hsemicolons : Semicolons semis) (htrail : Blanks trail) :
    Clipped lead bare gap semis trail := by
  have hne : bare ≠ [] := by
    rintro rfl
    cases hlast
  refine ⟨hlead, ⟨fun c hc => ?_, fun c hc => ?_⟩, ?_, ?_, hblanks, hsemicolons, htrail⟩
  · rw [List.append_assoc, List.head?_append_of_ne_nil _ hne] at hc
    exact hhead c hc
  · rw [List.getLast?_append_of_ne_nil _ hsemis] at hc
    exact hsemicolons.trimmed.last c hc
  · rw [List.getLast?_append_of_ne_nil _ hgap]
    exact hblanks.getLast?_ne
  · rw [hlast]
    rintro c ⟨⟩
    decide

/-- What a text is without its blanks and its last semicolons, in terms of its parts. -/
theorem bareStatement_eq_iff : bareStatement s = t ↔ ∃ lead gap semis trail,
    s.toList = lead ++ (t.toList ++ gap ++ semis) ++ trail ∧
      Clipped lead t.toList gap semis trail := by
  constructor
  · rintro rfl
    rw [bareStatement, Text.toList_mapChars]
    obtain ⟨lead, trail, hs, hlead, htrail⟩ := Text.exists_blanks_trim s.toList
    have hcore := Text.trimmed_trim s.toList
    generalize trim s.toList = core at hs hcore ⊢
    obtain ⟨⟨semis, hcs, hsemis⟩, hstem⟩ :=
      Text.dropEndWhile_eq_iff.1 (rfl : dropEndWhile (· == ';') core = _)
    generalize dropEndWhile (· == ';') core = stem at hcs hstem ⊢
    obtain ⟨⟨gap, hds, hgap⟩, hbare⟩ :=
      Text.dropEndWhile_eq_iff.1 (rfl : dropEndWhile isBlank stem = trimEnd stem)
    rw [hcs, hds] at hs hcore
    refine ⟨lead, gap, semis, trail, hs, hlead, hcore, fun h => ?_, hbare, hgap,
      fun c hc => beq_iff_eq.1 (hsemis c hc), htrail⟩
    exact absurd (hstem ';' (hds ▸ h)) (by decide)
  · rintro ⟨lead, gap, semis, trail, hs, h⟩
    have hstem : ∀ c, (t.toList ++ gap).getLast? = some c → (c == ';') = false := by
      intro c hc
      refine beq_eq_false_iff_ne.2 ?_
      rintro rfl
      exact h.stem hc
    rw [bareStatement, Text.mapChars, hs, Text.trim_append_blanks h.trail_blanks,
      Text.trim_blanks h.lead_blanks, h.core.trim_eq,
      Text.dropEndWhile_append_of_pos (fun c hc => beq_iff_eq.2 (h.semicolons c hc)),
      Text.dropEndWhile_eq_self hstem, Text.trimEnd_append_blanks h.gap_blanks,
      Text.trimEnd_eq_self h.last, String.ofList_toList]

/-- Blanks, semicolons behind them, and blanks again. -/
def IsVoid (s : String) : Prop :=
  ∃ lead semis trail, s.toList = lead ++ semis ++ trail ∧ Blanks lead ∧ Semicolons semis ∧
    Blanks trail

/-- Between the semicolons at the end of the text there are blanks. -/
def Interrupted (s : String) : Prop :=
  ∃ body gap semis trail, s.toList = body ++ ';' :: gap ++ semis ++ trail ∧ gap ≠ [] ∧
    Blanks gap ∧ semis ≠ [] ∧ Semicolons semis ∧ Blanks trail

theorem bareStatement_eq_empty_iff : bareStatement s = "" ↔ IsVoid s := by
  rw [bareStatement_eq_iff]
  constructor
  · rintro ⟨lead, gap, semis, trail, hs, h⟩
    refine ⟨lead ++ gap, semis, trail, by simp [hs], ?_, h.semicolons, h.trail_blanks⟩
    exact List.forall_mem_append.2 ⟨h.lead_blanks, h.gap_blanks⟩
  · rintro ⟨lead, semis, trail, hs, hlead, hsemis, htrail⟩
    refine ⟨lead, [], semis, trail, by simp [hs], hlead, hsemis.trimmed, by simp, by simp,
      List.forall_mem_nil _, hsemis, htrail⟩

theorem trimmed_bareStatement (s : String) : Trimmed (bareStatement s).toList := by
  obtain ⟨lead, gap, semis, trail, -, h⟩ := bareStatement_eq_iff.1 (rfl : bareStatement s = _)
  exact h.trimmed

/-- A semicolon is left at the end exactly where the last semicolons have blanks in front of them
that stand behind a semicolon again. -/
theorem getLast?_bareStatement_iff :
    (bareStatement s).toList.getLast? = some ';' ↔ Interrupted s := by
  constructor
  · intro hlast
    obtain ⟨lead, gap, semis, trail, hs, h⟩ := bareStatement_eq_iff.1 (rfl : bareStatement s = _)
    obtain ⟨hgap, hsemis⟩ := h.ne_nil hlast
    obtain ⟨body, hbody⟩ := List.getLast?_eq_some_iff.1 hlast
    refine ⟨lead ++ body, gap, semis, trail, ?_, hgap, h.gap_blanks, hsemis, h.semicolons,
      h.trail_blanks⟩
    rw [hs, hbody]
    simp
  · rintro ⟨body, gap, semis, trail, hs, hgap, hblanks, hsemis, hsemicolons, htrail⟩
    have hsplit : (body ++ [';']).takeWhile isBlank ++ trimStart (body ++ [';']) = body ++ [';'] :=
      List.takeWhile_append_dropWhile
    have hhead := @Text.trimStart_head (body ++ [';'])
    have hne : trimStart (body ++ [';']) ≠ [] := by
      intro hnil
      exact absurd (List.dropWhile_eq_nil_iff.1 hnil ';' (by simp)) (by decide)
    generalize trimStart (body ++ [';']) = bare at hsplit hhead hne
    have hlast : bare.getLast? = some ';' := by
      rw [← List.getLast?_append_of_ne_nil _ hne, hsplit, List.getLast?_concat]
    have hbare : bareStatement s = String.ofList bare := by
      refine bareStatement_eq_iff.2 ⟨(body ++ [';']).takeWhile isBlank, gap, semis, trail, ?_, ?_⟩
      · rw [String.toList_ofList, hs, ← List.append_assoc, ← List.append_assoc, hsplit]
        simp
      · rw [String.toList_ofList]
        exact clipped_of_last (fun c hc => List.mem_takeWhile_imp hc) (fun c => hhead) hlast hgap
          hblanks hsemis hsemicolons htrail
    rw [hbare, String.toList_ofList, hlast]

/-- Without blanks between its last semicolons, a text has nothing left if it consists of blanks and
semicolons, in any order. -/
theorem isVoid_iff (h : ¬Interrupted s) :
    IsVoid s ↔ ∀ c ∈ s.toList, isBlank c = true ∨ c = ';' := by
  constructor
  · rintro ⟨lead, semis, trail, hs, hlead, hsemis, htrail⟩ c hc
    rw [hs, List.append_assoc, List.mem_append, List.mem_append] at hc
    obtain hc | hc | hc := hc
    · exact .inl (hlead c hc)
    · exact .inr (hsemis c hc)
    · exact .inl (htrail c hc)
  · intro hall
    rw [← bareStatement_eq_empty_iff]
    by_contra hne
    obtain ⟨lead, gap, semis, trail, hs, hclipped⟩ :=
      bareStatement_eq_iff.1 (rfl : bareStatement s = _)
    -- What is left ends with a character that is not blank, and so with a semicolon.
    have hnil : (bareStatement s).toList ≠ [] := fun h0 => hne (String.toList_eq_nil_iff.1 h0)
    have hlast := List.getLast?_eq_getLast_of_ne_nil hnil
    have hmem : (bareStatement s).toList.getLast hnil ∈ s.toList := by
      rw [hs]
      simp
    have hblank := hclipped.last _ hlast
    obtain hb | hb := hall _ hmem
    · rw [hblank] at hb
      cases hb
    · exact h (getLast?_bareStatement_iff.1 (hlast.trans (congrArg some hb)))

/-! ## The statements of a body -/

/-- What is stored for the text of a statement. -/
structure Stored (s t : String) : Prop where
  ne_empty : t ≠ ""
  trimmed : Trimmed t.toList
  clipped : ∃ lead gap semis trail, s.toList = lead ++ (t.toList ++ gap ++ semis) ++ trail ∧
    Clipped lead t.toList gap semis trail
  semicolon_iff : t.toList.getLast? = some ';' ↔ Interrupted s

theorem stored_bareStatement (h : bareStatement s ≠ "") : Stored s (bareStatement s) :=
  ⟨h, trimmed_bareStatement s, bareStatement_eq_iff.1 rfl, getLast?_bareStatement_iff⟩

/-- The texts of statements are refused if one of them is void, once they are `reached`. What is
built of a draft that is `sound` otherwise has what is stored for each text, and is written with one
line for each, on which a semicolon follows what is stored. -/
structure StatementLaw {α : Type} (build : List String → Except BuildError α) (role : Role)
    (reached sound : Prop) (body : α → List Statement) (lines front : α → List String) : Prop where
  refused_iff : ∀ texts, build texts = .error (.emptyStatement role) ↔
    reached ∧ ∃ s ∈ texts, IsVoid s
  refused_iff_of_uninterrupted : ∀ texts, (∀ s ∈ texts, ¬Interrupted s) →
    (build texts = .error (.emptyStatement role) ↔
      reached ∧ ∃ s ∈ texts, ∀ c ∈ s.toList, isBlank c = true ∨ c = ';')
  built_iff : ∀ texts, (∃ a, build texts = .ok a) ↔ sound ∧ ∀ s ∈ texts, ¬IsVoid s
  stored : ∀ texts a, build texts = .ok a → ∃ stored, List.Forall₂ Stored texts stored ∧
    body a = stored.map .expression ∧ lines a = front a ++ stored.map (· ++ ";") ++ ["\x7d"]

theorem listLines_expression (ts : List String) :
    Statement.listLines (ts.map .expression) = ts.map (· ++ ";") := by
  induction ts with
  | nil => rfl
  | cons t ts ih => simp [Statement.listLines, Statement.lines, ih]

theorem statementLaw_of_build {α : Type} {build : List String → Except BuildError α}
    {reached sound : Prop} {body : α → List Statement} {lines front : α → List String}
    (hrefused : ∀ texts, build texts = .error (.emptyStatement role) ↔
      reached ∧ ∃ s ∈ texts, bareStatement s = "")
    (hbuilt : ∀ texts, (∃ a, build texts = .ok a) ↔ sound ∧ ∀ s ∈ texts, bareStatement s ≠ "")
    (hbody : ∀ texts a, build texts = .ok a →
      body a = (texts.map bareStatement).map .expression ∧
        lines a = front a ++ Statement.listLines (body a) ++ ["\x7d"]) :
    StatementLaw build role reached sound body lines front := by
  have hiff (texts : List String) : build texts = .error (.emptyStatement role) ↔
      reached ∧ ∃ s ∈ texts, IsVoid s := by
    simp only [hrefused, bareStatement_eq_empty_iff]
  refine ⟨hiff, fun texts h => ?_, fun texts => ?_, fun texts a ha => ?_⟩
  · rw [hiff]
    exact and_congr_right fun _ => exists_congr fun s =>
      and_congr_right fun hs => isVoid_iff (h s hs)
  · simp only [hbuilt, ne_eq, bareStatement_eq_empty_iff]
  · obtain ⟨hexpressions, hlines⟩ := hbody texts a ha
    have hne := ((hbuilt texts).1 ⟨a, ha⟩).2
    refine ⟨texts.map bareStatement, ?_, hexpressions, ?_⟩
    · exact List.forall₂_map_right_iff.2
        (List.forall₂_same.2 fun s hs => stored_bareStatement (hne s hs))
    · rw [hlines, hexpressions, listLines_expression]

/-! ## Methods and constructors -/

theorem simpleName_ne_emptyStatement (role role' : Role) (name : String) :
    simpleName role name ≠ .error (.emptyStatement role') := by
  unfold simpleName
  split
  · simp
  · split <;> simp

theorem buildModifiers_ne_emptyStatement (role role' : Role) (ms : List Modifier) :
    buildModifiers role ms ≠ .error (.emptyStatement role') := by
  unfold buildModifiers
  split <;> simp

theorem buildParameters_ne_emptyStatement (role : Role) (ps : List (String × TypeRef)) :
    ps.mapM buildParameter ≠ .error (.emptyStatement role) := by
  intro h
  obtain ⟨-, p, -, -, -, hp⟩ := mapM_eq_error.1 h
  exact simpleName_ne_emptyStatement _ _ _ (map_eq_error.1 hp)

/-- Only the statements of a method are refused as empty, and they are checked before anything
else. -/
theorem MethodDraft.build_eq_emptyStatement_iff {d : MethodDraft} (hbody : d.hasBody = true) :
    d.build = .error (.emptyStatement .method) ↔ ∃ s ∈ d.statements, bareStatement s = "" := by
  rw [MethodDraft.build, if_pos hbody, bind_eq_error]
  constructor
  · rintro (h | ⟨body, -, h⟩)
    · exact (buildStatements_eq_error.1 (map_eq_error.1 h)).1
    · rcases bind_eq_error.1 h with h | ⟨name, -, h⟩
      · exact absurd h (simpleName_ne_emptyStatement _ _ _)
      rcases bind_eq_error.1 h with h | ⟨modifiers, -, h⟩
      · exact absurd h (buildModifiers_ne_emptyStatement _ _ _)
      rcases bind_eq_error.1 h with h | ⟨parameters, -, h⟩
      · exact absurd h (buildParameters_ne_emptyStatement _ _)
      · cases h
  · intro h
    exact .inl (map_eq_error.2 (buildStatements_eq_error.2 ⟨h, rfl⟩))

/-- What a method or a constructor needs apart from its statements. -/
structure SoundSignature (name : String) (modifiers : List Modifier)
    (parameters : List (String × TypeRef)) : Prop where
  name : isSimpleName name.toList = true
  modifiers : modifiers ≠ []
  parameters : ∀ p ∈ parameters, isSimpleName p.1.toList = true

def MethodDraft.Sound (d : MethodDraft) : Prop := SoundSignature d.name d.modifiers d.parameters

/-- The lines of a method in front of its statements. -/
def MethodDecl.front (m : MethodDecl) : List String :=
  m.markers.map Marker.text ++
    [modifierText m.modifiers ++ m.returnType.text ++ " " ++ m.name ++ "(" ++
      parameterText m.parameters ++ ")" ++ " \x7b"]

theorem MethodDraft.statementLaw (d : MethodDraft) (hbody : d.hasBody = true) :
    StatementLaw (fun texts => { d with statements := texts }.build) .method True d.Sound
      (fun m => m.body.getD []) MethodDecl.lines MethodDecl.front := by
  have hok (texts : List String) (m : MethodDecl) :=
    @MethodDraft.build_eq_ok { d with statements := texts } m hbody
  refine statementLaw_of_build (fun texts => ?_) (fun texts => ?_) (fun texts m hm => ?_)
  · rw [true_and]
    exact @MethodDraft.build_eq_emptyStatement_iff { d with statements := texts } hbody
  · constructor
    · rintro ⟨m, hm⟩
      obtain ⟨hbare, hname, hmodifiers, hparameters, -⟩ := (hok texts m).1 hm
      exact ⟨⟨hname, hmodifiers, hparameters⟩, hbare⟩
    · rintro ⟨⟨hname, hmodifiers, hparameters⟩, hbare⟩
      exact ⟨_, (hok texts _).2 ⟨hbare, hname, hmodifiers, hparameters, rfl⟩⟩
  · obtain ⟨-, -, -, -, rfl⟩ := (hok texts m).1 hm
    simp [MethodDecl.lines, MethodDecl.front, braced]

theorem MethodDraft.build_bodiless (d : MethodDraft) (hbody : d.hasBody = false) (hd : d.Sound)
    (texts : List String) :
    ∃ m, { d with statements := texts }.build = .ok m ∧ m.body = none := by
  obtain ⟨hname, hmodifiers, hparameters⟩ := hd
  have hok := @MethodDraft.build_bodiless_eq_ok { d with statements := texts }
  exact ⟨_, (hok hbody).2 ⟨hname, hmodifiers, hparameters, rfl⟩, rfl⟩

def ConstructorDraft.Sound (d : ConstructorDraft) : Prop :=
  SoundSignature d.name d.modifiers d.parameters

/-- The statements of a constructor are checked behind everything else. -/
theorem ConstructorDraft.build_eq_emptyStatement_iff {d : ConstructorDraft} :
    d.build = .error (.emptyStatement .constructor) ↔
      d.Sound ∧ ∃ s ∈ d.statements, bareStatement s = "" := by
  rw [ConstructorDraft.build, bind_eq_error]
  constructor
  · rintro (h | ⟨name, hname, h⟩)
    · exact absurd h (simpleName_ne_emptyStatement _ _ _)
    rcases bind_eq_error.1 h with h | ⟨modifiers, hmodifiers, h⟩
    · exact absurd h (buildModifiers_ne_emptyStatement _ _ _)
    rcases bind_eq_error.1 h with h | ⟨parameters, hparameters, h⟩
    · exact absurd h (buildParameters_ne_emptyStatement _ _)
    rcases bind_eq_error.1 h with h | ⟨body, -, h⟩
    · exact ⟨⟨(simpleName_eq_ok.1 hname).1, (buildModifiers_eq_ok.1 hmodifiers).1,
        (buildParameters_eq_ok.1 hparameters).1⟩, (buildStatements_eq_error.1 h).1⟩
    · cases h
  · rintro ⟨⟨hname, hmodifiers, hparameters⟩, h⟩
    refine .inr ⟨_, simpleName_eq_ok.2 ⟨hname, rfl⟩, bind_eq_error.2 (.inr ?_)⟩
    refine ⟨_, buildModifiers_eq_ok.2 ⟨hmodifiers, rfl⟩, bind_eq_error.2 (.inr ?_)⟩
    refine ⟨_, buildParameters_eq_ok.2 ⟨hparameters, rfl⟩, bind_eq_error.2 (.inl ?_)⟩
    exact buildStatements_eq_error.2 ⟨h, rfl⟩

/-- The line of a constructor in front of its statements. -/
def ConstructorDecl.front (c : ConstructorDecl) : List String :=
  [modifierText c.modifiers ++ c.name ++ "(" ++ parameterText c.parameters ++ ")" ++ " \x7b"]

theorem ConstructorDraft.statementLaw (d : ConstructorDraft) :
    StatementLaw (fun texts => { d with statements := texts }.build) .constructor d.Sound d.Sound
      ConstructorDecl.body ConstructorDecl.lines ConstructorDecl.front := by
  have hok (texts : List String) (c : ConstructorDecl) :=
    @ConstructorDraft.build_eq_ok { d with statements := texts } c
  refine statementLaw_of_build (fun texts => ?_) (fun texts => ?_) (fun texts c hc => ?_)
  · exact @ConstructorDraft.build_eq_emptyStatement_iff { d with statements := texts }
  · constructor
    · rintro ⟨c, hc⟩
      obtain ⟨hname, hmodifiers, hparameters, hbare, -⟩ := (hok texts c).1 hc
      exact ⟨⟨hname, hmodifiers, hparameters⟩, hbare⟩
    · rintro ⟨⟨hname, hmodifiers, hparameters⟩, hbare⟩
      exact ⟨_, (hok texts _).2 ⟨hname, hmodifiers, hparameters, hbare, rfl⟩⟩
  · obtain ⟨-, -, -, -, rfl⟩ := (hok texts c).1 hc
    simp [ConstructorDecl.lines, ConstructorDecl.front, braced]

/-- The law of statements holds for methods, which check their statements in front of everything
else, and for constructors, which check them behind everything else. A method without a body leaves
its statements out. -/
theorem statements_of_texts (d : MethodDraft) (k : ConstructorDraft) :
    (d.hasBody = true →
      StatementLaw (fun texts => { d with statements := texts }.build) .method True d.Sound
        (fun m => m.body.getD []) MethodDecl.lines MethodDecl.front) ∧
      (d.hasBody = false → d.Sound →
        ∀ texts, ∃ m, { d with statements := texts }.build = .ok m ∧ m.body = none) ∧
      StatementLaw (fun texts => { k with statements := texts }.build) .constructor k.Sound k.Sound
        ConstructorDecl.body ConstructorDecl.lines ConstructorDecl.front :=
  ⟨d.statementLaw, d.build_bodiless, k.statementLaw⟩

/-- A method of the text `; ;` is built: one semicolon is left, and another one is written behind
it. A constructor with a semicolon behind a blank is refused. -/
theorem statements_of_texts_of_interrupted :
    let d : MethodDraft :=
      { modifiers := [.publicAccess], name := "m", returnType := .mk "void" [] 0 }
    let k : ConstructorDraft := { modifiers := [.publicAccess], name := "Box" }
    d.hasBody = true ∧ d.Sound ∧ Interrupted "; ;" ∧
      (∀ c ∈ "; ;".toList, isBlank c = true ∨ c = ';') ∧
      (∃ m, { d with statements := ["; ;"] }.build = .ok m ∧
        m.lines = m.front ++ [";;"] ++ ["\x7d"]) ∧
      { k with statements := ["a()", " ;"] }.build = .error (.emptyStatement .constructor) := by
  intro d k
  have hsound : d.Sound := ⟨by decide, by decide, by decide⟩
  have hinterrupted : Interrupted "; ;" :=
    ⟨[], [' '], [';'], [], by decide, by decide, List.forall_mem_singleton.2 (by decide),
      by decide, List.forall_mem_singleton.2 rfl, List.forall_mem_nil _⟩
  have htext : "; ;".toList = [';', ' ', ';'] := by decide
  have hchars : ∀ c ∈ "; ;".toList, isBlank c = true ∨ c = ';' := by
    rw [htext, List.forall_mem_cons, List.forall_mem_cons, List.forall_mem_singleton]
    decide
  have hbare : bareStatement "; ;" = ";" := by decide
  have hvoid : ¬IsVoid "; ;" := by
    rw [← bareStatement_eq_empty_iff, hbare]
    decide
  obtain ⟨hmethod, -, hconstructor⟩ := statements_of_texts d k
  obtain ⟨m, hm⟩ := ((hmethod rfl).built_iff ["; ;"]).2
    ⟨hsound, List.forall_mem_singleton.2 hvoid⟩
  obtain ⟨stored, hstored, -, hlines⟩ := (hmethod rfl).stored _ m hm
  obtain ⟨t, _, ht, hnil, rfl⟩ := List.forall₂_cons_left_iff.1 hstored
  cases hnil
  obtain rfl : ";" = t := hbare.symm.trans (bareStatement_eq_iff.2 ht.clipped)
  have hrefused := (hconstructor.refused_iff ["a()", " ;"]).2
    ⟨⟨by decide, by decide, by decide⟩, " ;", by simp, bareStatement_eq_empty_iff.1 (by decide)⟩
  exact ⟨rfl, hsound, hinterrupted, hchars, ⟨m, hm, hlines⟩, hrefused⟩

end JpaScaffold.Java
