import JpaScaffold.Proofs.Layout.Seams

/-!
# What a run over its own text has read

At every point of a run, a run over the lines written so far ends in the same state, apart from the
imports that wait and the statement that is being read. This is the invariant under which a text is
laid out as it stands.
-/
namespace JpaScaffold.Java.Layout

variable {o : Options} {s X : State} {t : Token} {rest : List Token}

/-- The innermost block `c` of a file, and the blocks around it, whose members do not go on behind
comments or annotations. -/
def Nested (c : Scope) : List Scope → Prop
  | [] => c.kind = .file
  | around :: outer => c.kind ≠ .file ∧ around.inElement = false ∧ Nested around outer

/-- The tokens `us` bring a layout from its start to the state `X`, in front of the tokens that are
admitted. -/
def Reaches (o : Options) (us : List Token) (X : State) (admitted : List Token → Prop) : Prop :=
  ∀ ts, NoLineComment ts → admitted ts → run o {} none (us ++ ts) = run o X none ts

/-- The text written so far ends with a character of a word. -/
def State.endsInWord (s : State) : Bool := (page s.out).getLast?.any isWordChar

/-- The tokens `us` do not lead on to a text that starts with `written` and a line feed once tokens
attach to them. -/
def Sticks (o : Options) (us : List Token) (written : List Char) : Prop :=
  ∀ b s₁ text more, NoLineComment b → attaches b = true → run o {} none (us ++ b) = .ok s₁ →
    finish o s₁ = .ok text → text ≠ written ++ '\n' :: more

/-- What stands behind the lines written so far goes with their seam. -/
structure Seam.Meets (m : Seam) (s : State) (rest : List Token) : Prop where
  opened : m = .opened → s.scope.kind ≠ .file
  closed : m = .closed → s.scope.inElement = false
  annotated : m = .annotated ↔ s.scope.inElement = true ∧ s.endsInWord = true
  admits : s.dueImports = [] → (m = .annotated → s.pending ≠ []) → m.Admits (s.pending ++ rest)

/-- A closed block is continued. -/
def Continues (ts : List Token) : Prop := isContinuation ts.head? = true

def State.dueTokens (s : State) : List Token := s.dueImports.flatMap tokensOf

/-- The text written so far, read again: its lines, or its lines, the imports that are due and the
closed block that is continued. -/
inductive Written (o : Options) (s : State) (rest : List Token) : Prop
  | lines {us : List Token} {m : Seam} (hc : s.carry = none)
      (hu : Spells .tokens AtGap (page s.out) us) (hk : NoLineComment us)
      (hr : Reaches o us s.bare m.Admits) (hm : m.Meets s rest)
      (hx : m = .annotated → Sticks o us (page s.out))
  | carried {us vs : List Token} {closed : List Char} (hc : s.carry = some closed)
      (hu : Spells .tokens AtGap (page s.out) us) (hk : NoLineComment us)
      (hv : Spells .tokens AtGap closed vs) (hkv : NoLineComment vs)
      (hr : Reaches o (us ++ (s.dueTokens ++ vs)) s.reopened Continues)

/-- What a run over its own text has read when the tokens `rest` are to come. -/
structure Reread (o : Options) (s : State) (rest : List Token) : Prop where
  legible : Legible (s.pending ++ rest)
  plain : NoLineComment (s.pending ++ rest)
  held : Held s.carry.isNone s.pending (s.nesting.map Prod.fst) s.assigned
  start : s.pending ≠ [] → PlainStart s.carry.isNone (s.pending ++ rest)
  continued : s.carry ≠ none → Continues (s.pending ++ rest)
  imports : ∀ line ∈ s.imports, ImportLine o line
  nested : Nested s.scope s.outer
  written : Written o s rest

/-- The tokens that are read belong to the annotation in front of them, although they did not when
the source was read: the imports between them were moved. -/
def Visit.fuses (v : Visit) : Bool :=
  v.state.pending.isEmpty && v.state.scope.inElement && v.state.endsInWord &&
    attaches (v.taken ++ v.rest)

theorem Seam.meets_free (rest : List Token)
    (h : s.scope.inElement = true → s.endsInWord = false) : Seam.free.Meets s rest where
  opened h := by cases h
  closed h := by cases h
  annotated := by
    constructor
    · rintro ⟨⟩
    · rintro ⟨hi, hw⟩
      rw [h hi] at hw
      cases hw
  admits _ _ := trivial

theorem reread_start {ts : List Token} (hl : Legible ts) (hk : NoLineComment ts) :
    Reread o {} ts where
  legible := hl
  plain := hk
  held := .nil
  start h := absurd rfl h
  continued h := absurd rfl h
  imports := List.forall_mem_nil _
  nested := rfl
  written := .lines rfl (spells_nil _ _) noLineComment_nil (fun _ _ _ => rfl)
    (Seam.meets_free _ (by rintro ⟨⟩)) (by rintro ⟨⟩)

theorem idle_bare (s : State) : Idle s.bare := ⟨rfl, rfl, rfl⟩

theorem idle_reopened (s : State) : Idle s.reopened := ⟨rfl, rfl, rfl⟩

theorem Reread.dueImports (h : Reread o s rest) : ∀ line ∈ s.dueImports, ImportLine o line := by
  intro line hl
  unfold State.dueImports at hl
  split at hl
  · exact h.imports line (mem_sortedImports.1 hl)
  · cases hl

theorem noLineComment_dueTokens (h : ∀ line ∈ s.dueImports, ImportLine o line) :
    NoLineComment s.dueTokens := by
  intro t ht
  obtain ⟨line, hl, ht⟩ := List.mem_flatMap.1 ht
  exact (h line hl).plain t ht

theorem spells_imports {lines : List (List Char)} (h : ∀ line ∈ lines, ImportLine o line) :
    Spells .tokens AtGap (page lines) (lines.flatMap tokensOf) := by
  have hlines : List.Forall₂ (Spells Reading.tokens AtGap) lines (lines.map tokensOf) := by
    rw [List.forall₂_map_right_iff]
    exact List.forall₂_same.2 fun line hl => (h line hl).spelled
  have hpage := spells_page hlines
  rwa [← List.flatMap_def] at hpage

theorem spells_dueImports (h : ∀ line ∈ s.dueImports, ImportLine o line) :
    Spells .tokens AtGap (page s.dueImports) s.dueTokens :=
  spells_imports h

theorem run_dueImports {ts : List Token} (h : ∀ line ∈ s.dueImports, ImportLine o line)
    (hc : s.carry = none) (hts : NoLineComment ts) :
    run o s.bare none (s.dueTokens ++ ts) = run o s.reopened none ts := by
  by_cases hdue : s.dueImports = []
  · rw [State.dueTokens, State.reopened, hdue]
    rfl
  · have hk : s.bare.scope.kind = .file := by
      by_contra hk
      refine hdue (if_neg ?_)
      exact fun hfile => hk hfile.1
    exact run_imports h (idle_bare s) hc hk hts

theorem Seam.admits_imports {lines : List (List Char)} (h : ∀ line ∈ lines, ImportLine o line)
    (hne : lines ≠ []) (m : Seam) (ts : List Token) : m.Admits (lines.flatMap tokensOf ++ ts) := by
  obtain ⟨line, lines, rfl⟩ := List.exists_cons_of_ne_nil hne
  have hbegins := (h line (by simp)).begins
  rw [List.flatMap_cons]
  cases hx : tokensOf line with
  | nil => simp [hx, startsImport] at hbegins
  | cons x xs =>
    rw [hx] at hbegins
    have himport : x.isTheWord "import".toList = true := hbegins
    exact m.admits_freely (by rw [opensFreely, himport, Bool.or_true]) _

/-- A layout has read its own text up to the element in front of which the token `t` stands: it has
read `us` in the lines, the imports that are due, and `vs` in the closed block that is continued. -/
structure Resumed (o : Options) (s : State) (t : Token) (us vs : List Token) : Prop where
  spells : Spells .tokens AtGap (page s.out) us
  plain : NoLineComment us
  carry : Spells .tokens AtGap (s.carry.getD []) vs
  plainCarry : NoLineComment vs
  run_eq : ∀ ps t' b, SameContents (s.pending ++ [t]) (ps ++ [t']) →
    NoLineComment (ps ++ t' :: b) →
    run o {} none (us ++ (s.dueTokens ++ vs) ++ (ps ++ t' :: b)) =
      run o s.reopened none (ps ++ t' :: b)
  run_freely : s.carry = none → ∀ t' b, opensFreely t' = true → NoLineComment (t' :: b) →
    run o {} none (us ++ (s.dueTokens ++ vs) ++ t' :: b) = run o s.reopened none (t' :: b)

/-- Behind what was written, the tokens of the element are read in a state in which it can begin,
unless they fuse with an annotation. -/
theorem Reread.resumes {taken rest' : List Token} (h : Reread o s (t :: rest))
    (ht : t :: rest = taken ++ rest') (hf : Visit.fuses ⟨s, taken, rest'⟩ = false)
    (hdot : t.isPunct ['.'] = false) : ∃ us vs, Resumed o s t us vs := by
  have himports := h.dueImports
  -- what was written either ends where a line ends, or it is carried to the line to come
  cases h.written with
  | @lines us m hc hu hk hr hm =>
    have hread (ts : List Token) (hts : NoLineComment ts) (hadmits : s.dueImports = [] →
        m.Admits ts) : run o {} none (us ++ (s.dueTokens ++ []) ++ ts) = run o s.reopened none ts := by
      have hplain := noLineComment_append.2 ⟨noLineComment_dueTokens himports, hts⟩
      rw [List.append_nil, List.append_assoc, hr _ hplain, run_dueImports himports hc hts]
      by_cases hdue : s.dueImports = []
      · rw [State.dueTokens, hdue]
        exact hadmits hdue
      · exact m.admits_imports himports hdue _
    refine ⟨us, [], hu, hk, ?_, noLineComment_nil, ?_, ?_⟩
    · rw [hc]
      exact spells_nil _ _
    · intro ps t' b hsame hplain
      refine hread _ hplain fun hdue => ?_
      have hadmits : m.Admits (s.pending ++ t :: rest) := by
        by_cases hp : m = .annotated ∧ s.pending = []
        · obtain ⟨rfl, hp⟩ := hp
          obtain ⟨helement, hword⟩ := hm.annotated.1 rfl
          rw [hp, List.nil_append]
          simpa [Visit.fuses, hp, helement, hword, ht, Seam.Admits] using hf
        · exact hm.admits hdue fun ha hp' => hp ⟨ha, hp'⟩
      exact m.admits_of_contents hsame hdot hadmits
    · intro _ t' b hfree hplain
      exact hread _ hplain fun _ => m.admits_freely hfree b
  | @carried us vs closed hc hu hk hv hkv hr =>
    refine ⟨us, vs, hu, hk, by rw [hc]; exact hv, hkv, ?_, fun hnone => ?_⟩
    · intro ps t' b hsame hplain
      refine hr _ hplain ?_
      have hcont := h.continued (by simp [hc])
      have hhead := isContinuation_of_contents hsame
      have hfirst : (ps ++ t' :: b).head? = (ps ++ [t']).head? := by cases ps <;> rfl
      have hfirst' : (s.pending ++ t :: rest).head? = (s.pending ++ [t]).head? := by
        cases s.pending <;> rfl
      unfold Continues at hcont ⊢
      rw [hfirst, hhead, ← hfirst', hcont]
    · rw [hc] at hnone
      cases hnone

end JpaScaffold.Java.Layout
