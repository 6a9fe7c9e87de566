import JpaScaffold.Proofs.Layout.Alike
import JpaScaffold.Proofs.Layout.CommentLines
import JpaScaffold.Proofs.Layout.Keeping

/-!
# Reading written lines again

Written text is read again in parts: the lines that stand already, the imports that go in front of
the next element, and the element itself. What may come behind a line is a matter of the seam that
the line ends with.
-/
namespace JpaScaffold.Java.Layout

variable {o : Options} {s X Y : State}

/-- The state in which the lines written so far are left when they are read again: no statement has
begun, no import waits, and no token has a line. -/
def State.bare (s : State) : State :=
  { s with
    scope := s.scope.erased
    outer := s.outer.map Scope.erased
    imports := []
    pending := []
    nesting := []
    assigned := false }

/-- The state in which the text in front of the next element is left when it is read again. -/
def State.reopened (s : State) : State := { s.bare with imports := s.dueImports }

def tokensOf (line : List Char) : List Token := (scan true line).getD []

theorem tokensOf_of_spells {line : List Char} {w : List Token}
    (h : Spells .tokens AtGap line w) : tokensOf line = w := by
  have hw := h.scan_eq atLineEnd_nil.atGap
  rw [List.append_nil, scan_nil] at hw
  rw [tokensOf, hw]
  simp

/-- The line is an import statement and is read again as it stands. -/
structure ImportLine (o : Options) (line : List Char) : Prop where
  spelled : Spells .tokens AtGap line (tokensOf line)
  plain : NoLineComment (tokensOf line)
  begins : startsImport (tokensOf line) = true
  read : ∀ X ts, Idle X → X.carry = none → X.scope.kind = .file → NoLineComment ts →
    run o X none (tokensOf line ++ ts) =
      run o { X with imports := X.imports ++ [line] } none ts

theorem leading_append_unlined {ts : List Token} (h : ts ≠ []) (t : Token) :
    leading (ts ++ [t]) = leading ts ++ [t.unlined] := by
  rw [leading_append h]
  rfl

theorem startsImport_append {ts : List Token} (h : startsImport ts = true) (us : List Token) :
    startsImport (ts ++ us) = true := by
  cases ts with
  | nil => cases h
  | cons t ts => exact h

/-- An import statement is read again from its line. -/
theorem importLine_of_held {ps : List Token} {t : Token} {assigned : Bool}
    (hl : Legible (ps ++ [t])) (hk : NoLineComment (ps ++ [t])) (hi : startsImport ps = true)
    (hh : Held true ps [] assigned) (ht : t.isPunct [';'] = true) :
    ImportLine o (joinTokens (ps ++ [t])) := by
  have hne : ps ≠ [] := by
    rintro rfl
    cases hi
  have hsp : Spells .tokens AtGap (joinTokens (ps ++ [t])) (leading (ps ++ [t])) :=
    spells_joinTokens hl hk
  have hsplit := leading_append_unlined hne t
  have hkl : NoLineComment (leading (ps ++ [t])) :=
    noLineComment_of_contents (sameContents_leading _) hk
  have himport : startsImport (leading ps) = true := by
    rw [startsImport_of_contents (sameContents_leading ps), hi]
  rw [← tokensOf_of_spells hsp] at hkl hsplit
  refine ⟨tokensOf_of_spells hsp ▸ hsp, hkl, ?_, ?_⟩
  · rw [hsplit]
    exact startsImport_append himport _
  -- read again, the tokens are held as a statement, and the semicolon ends it
  · intro X ts hX hc hkind hts
    have hheld : Held X.carry.isNone (leading ps) [] assigned := by
      rw [hc]
      exact hh.of_contents (map_content_leading ps)
    have hmove : Move o { X with pending := leading ps, assigned := assigned } none t.unlined ts _ :=
      .statement ht hX.nesting
    have hend : State.endStatement
        { X with pending := leading ps ++ [t.unlined], assigned := assigned } o =
          { X with imports := X.imports ++ [joinTokens (ps ++ [t])] } := by
      have htext : joinTokens (leading ps ++ [t.unlined]) = joinTokens (ps ++ [t]) := by
        rw [← leading_append_unlined hne, joinTokens_leading]
      refine (endStatement_of_import
        (s := { X with pending := leading ps ++ [t.unlined], assigned := assigned }) hkind
        (startsImport_append himport _)).trans ?_
      simp only [State.clearStatement, State.text, withCarry, hc, htext, hX.pending, hX.assigned]
    have hl' : NoLineComment (leading ps ++ t.unlined :: ts) := by
      rw [List.append_cons, ← leading_append_unlined hne]
      exact noLineComment_append.2 ⟨noLineComment_of_contents (sameContents_leading _) hk, hts⟩
    have hstart : PlainStart X.carry.isNone (leading ps ++ t.unlined :: ts) := by
      intro _ u rest hu
      cases hps : leading ps with
      | nil => simp [hps, startsImport] at himport
      | cons x xs =>
        rw [hps] at himport hu
        cases hu
        have hword := (Bool.and_eq_true_iff.1 himport).1
        refine eq_false_of_ne_true fun hc => ?_
        have hpunct := (Token.isPunct_iff.1 (startsAnnotation_isPunct hc)).1
        rw [hpunct] at hword
        cases hword
    rw [hsplit, List.append_assoc, List.singleton_append]
    exact (hheld.run_step hX (line_leading ps) hl' (fun _ => hstart) hmove).trans
      (congrArg (fun s => run o s none ts) hend)

theorem run_imports {lines : List (List Char)} {ts : List Token}
    (h : ∀ line ∈ lines, ImportLine o line) (hX : Idle X) (hc : X.carry = none)
    (hk : X.scope.kind = .file) (hts : NoLineComment ts) :
    run o X none (lines.flatMap tokensOf ++ ts) =
      run o { X with imports := X.imports ++ lines } none ts := by
  induction lines generalizing X with
  | nil => simp
  | cons line lines ih =>
    obtain ⟨hline, hlines⟩ := List.forall_mem_cons.1 h
    have hmore : NoLineComment (lines.flatMap tokensOf ++ ts) := by
      refine noLineComment_append.2 ⟨?_, hts⟩
      intro t ht
      obtain ⟨l, hl, ht⟩ := List.mem_flatMap.1 ht
      exact (hlines l hl).plain t ht
    rw [List.flatMap_cons, List.append_assoc, hline.read X _ hX hc hk hmore]
    have hrest := ih (X := { X with imports := X.imports ++ [line] }) hlines
      ⟨hX.pending, hX.nesting, hX.assigned⟩ hc hk
    rw [hrest]
    simp

/-- What may stand behind the lines written so far. -/
inductive Seam where
  | free
  /-- Behind an opening brace: no closing one, which would belong to it. -/
  | opened
  /-- Behind a closing brace: nothing that continues its statement. -/
  | closed
  /-- Behind the name of an annotation: nothing that belongs to it. -/
  | annotated
  deriving DecidableEq

/-- The tokens may stand behind the seam. -/
def Seam.Admits : Seam → List Token → Prop
  | free, _ => True
  | opened, ts => ∀ t, ts.head? = some t → t.isPunct ['}'] = false
  | closed, ts => isContinuation ts.head? = false
  | annotated, ts => attaches ts = false

theorem Seam.admits_nil (m : Seam) : m.Admits [] := by
  cases m with
  | free => trivial
  | opened =>
    intro t ht
    cases ht
  | closed => rfl
  | annotated => rfl

/-- A token in front of which no seam stands in the way. -/
def opensFreely (t : Token) : Bool :=
  t.kind == .blockComment || t.isPunct ['@'] || t.isTheWord "import".toList

theorem Seam.admits_freely {t : Token} (m : Seam) (h : opensFreely t = true) (ts : List Token) :
    m.Admits (t :: ts) := by
  have hcases : t.kind = .blockComment ∨ t.isPunct ['@'] = true ∨
      t.isTheWord "import".toList = true := by
    simpa [opensFreely, or_assoc] using h
  have hpunct : ∀ text, text ≠ ['@'] → t.isPunct text = false := by
    intro text htext
    rcases hcases with hk | hk | hk
    · simp [Token.isPunct, hk]
    · exact isPunct_disjoint hk htext.symm
    · have hword := (Bool.and_eq_true_iff.1 hk).1
      simp [Token.isPunct, eq_of_beq hword]
  cases m with
  | free => trivial
  | opened =>
    rintro u ⟨⟩
    exact hpunct _ (by decide)
  | closed =>
    have hword : continuations.any t.isTheWord = false := by
      rcases hcases with hk | hk | hk
      · simp [continuations, Token.isTheWord, hk]
      · simp [continuations, Token.isTheWord, (Token.isPunct_iff.1 hk).1]
      · have htext := eq_of_beq (Bool.and_eq_true_iff.1 hk).2
        have hother : ∀ word ∈ continuations, ("import".toList == word) = false := by decide
        refine List.any_eq_false.2 fun word hw => ?_
        rw [Token.isTheWord, htext, hother word hw, Bool.and_false]
        exact Bool.false_ne_true
    exact hword
  | annotated =>
    have hdot := hpunct ['.'] (by decide)
    have hparen := hpunct ['('] (by decide)
    cases ts with
    | nil => exact hparen
    | cons u us => simp [Seam.Admits, attaches, hdot, hparen]

/-- Of what comes behind a seam, the first tokens matter and what they say. -/
theorem Seam.admits_of_contents {ps ps' : List Token} {t t' : Token} {a b : List Token} (m : Seam)
    (hc : SameContents (ps ++ [t]) (ps' ++ [t'])) (hdot : t.isPunct ['.'] = false)
    (h : m.Admits (ps ++ t :: a)) : m.Admits (ps' ++ t' :: b) := by
  obtain ⟨hps, ht⟩ : SameContents ps ps' ∧ t'.content = t.content := by
    simpa [SameContents] using hc
  cases m with
  | free => trivial
  | opened =>
    intro u hu
    cases ps with
    | nil =>
      obtain rfl := sameContents_nil hps
      cases hu
      rw [isPunct_of_content ht]
      exact h t rfl
    | cons p ps =>
      obtain ⟨q, qs, rfl, hq, -⟩ := sameContents_cons hps
      cases hu
      rw [isPunct_of_content hq]
      exact h p rfl
  | closed =>
    have hhead := isContinuation_of_contents hc
    cases ps with
    | nil =>
      obtain rfl := sameContents_nil hps
      exact hhead.trans h
    | cons p ps =>
      obtain ⟨q, qs, rfl, -, -⟩ := sameContents_cons hps
      exact hhead.trans h
  | annotated =>
    have hdot' : t'.isPunct ['.'] = false := by rw [isPunct_of_content ht, hdot]
    -- an annotation looks at two tokens at most: behind `ps`, at its end or inside of it
    rcases ps with _ | ⟨p, _ | ⟨p', ps⟩⟩
    · obtain rfl := sameContents_nil hps
      have hparen : t.isPunct ['('] = false := by
        cases a with
        | nil => exact h
        | cons u us =>
          simp only [List.nil_append, Seam.Admits, attaches, Bool.or_eq_false_iff] at h
          exact h.1
      have hparen' : t'.isPunct ['('] = false := by rw [isPunct_of_content ht, hparen]
      cases b with
      | nil => exact hparen'
      | cons u us => simp [Seam.Admits, attaches, hparen', hdot']
    · obtain ⟨q, qs, rfl, hq, hqs⟩ := sameContents_cons hps
      obtain rfl := sameContents_nil hqs
      simp only [List.singleton_append, Seam.Admits, attaches] at h ⊢
      rw [isPunct_of_content hq, isPunct_of_content hq, isWord_of_content ht]
      exact h
    · obtain ⟨q, qs, rfl, hq, hqs⟩ := sameContents_cons hps
      obtain ⟨q', qs', rfl, hq', -⟩ := sameContents_cons hqs
      simp only [List.cons_append, Seam.Admits, attaches] at h ⊢
      rw [isPunct_of_content hq, isPunct_of_content hq, isWord_of_content hq']
      exact h

end JpaScaffold.Java.Layout
