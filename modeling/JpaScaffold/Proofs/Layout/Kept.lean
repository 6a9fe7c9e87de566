import JpaScaffold.Proofs.Layout.CommentLines
import JpaScaffold.Proofs.Layout.Emission
import JpaScaffold.Proofs.Layout.Pieces

/-!
# What a layout has kept

At every point of a run, the lines written, the closed block that is carried and the statement that
is being read spell together the tokens read so far, comments as the layout writes them. This is the
invariant of a run over a source without imports; each move keeps it.
-/
namespace JpaScaffold.Java.Layout

open Text (trimEnd)

/-- What the layout makes of a token that a step reads alone. -/
def State.rewritten (s : State) (o : Options) (t : Token) : Content :=
  if t.kind = .lineComment then
    if s.pending.isEmpty then (.lineComment, trimEnd t.text) else (inlined t).content
  else if t.kind = .blockComment ∧ s.atStart then (.blockComment, laidComment (s.indent o) t.text)
  else t.content

/-- What the layout makes of the tokens that a step reads. -/
def Visit.written (v : Visit) (o : Options) : List Content :=
  match v.taken with
  | [t] => [v.state.rewritten o t]
  | ts => ts.map Token.content

/-- The comments that a step reads fit into the place where the layout puts them: a line comment
that becomes a block comment inside a statement does not close it, and the arguments of an
annotation, which are written on one line, hold no line comment. -/
def Visit.Fits (v : Visit) : Prop :=
  match v.taken with
  | [t] => t.kind = .lineComment → v.state.pending ≠ [] → Unclosed t.text
  | ts => NoLineComment ts

def Visit.endsImport (v : Visit) : Bool :=
  v.state.scope.kind == .file && v.state.nesting.isEmpty && startsImport v.state.pending &&
    match v.taken with
    | [t] => t.isPunct [';']
    | _ => false

/-- Behind a line comment the next token stands on a later line. -/
def Apart : List Token → Prop
  | [] => True
  | t :: ts => (t.kind = .lineComment → ∀ u, ts.head? = some u → t.line < u.line) ∧ Apart ts

theorem Apart.of_append_right {ts us : List Token} (h : Apart (ts ++ us)) : Apart us := by
  induction ts with
  | nil => exact h
  | cons t ts ih => exact ih h.2

theorem line_le_head {line : Nat} {spaced : Bool} {cs : List Char} {ts : List Token}
    (h : Lexed line spaced cs ts) : ∀ t, ts.head? = some t → line ≤ t.line := by
  induction h with
  | nil =>
    intro t ht
    cases ht
  | @blank line c _ _ _ _ _ ih =>
    intro t ht
    have hle := ih t ht
    split at hle <;> omega
  | lexeme =>
    intro t ht
    cases ht
    exact Nat.le_refl _

theorem apart_of_lexed {line : Nat} {spaced : Bool} {cs : List Char} {ts : List Token}
    (h : Lexed line spaced cs ts) : Apart ts := by
  induction h with
  | nil => trivial
  | blank _ _ _ ih => exact ih
  | lexeme _ _ hx h ih =>
    refine ⟨fun hk u hu => ?_, ih⟩
    have hcuts := cuts_of_lexeme hx
    cases hcuts with
    | lineComment rest =>
      -- behind the comment stands its line feed, or nothing
      generalize hd : rest.dropWhile (· ≠ '\n') = ds at h
      cases h with
      | nil => cases hu
      | @blank _ c _ _ _ _ h =>
        have hnl := List.head?_dropWhile_not (· ≠ '\n') rest
        rw [hd] at hnl
        obtain rfl : c = '\n' := by simpa using hnl
        have hle := line_le_head h u hu
        simpa [Lexeme.nextLine] using hle
      | @lexeme _ c _ _ _ _ hb =>
        have hnl := List.head?_dropWhile_not (· ≠ '\n') rest
        rw [hd] at hnl
        obtain rfl : c = '\n' := by simpa using hnl
        cases hb
    | blockComment => cases hk
    | literal => cases hk
    | word => cases hk
    | mark =>
      rw [operator_kind] at hk
      cases hk

theorem apart_of_tokenize {source : List Char} {ts : List Token}
    (h : tokenize source = .ok ts) : Apart ts :=
  apart_of_lexed (lexed_of_tokensFrom h)

/-- What may follow before tokens with a comment kept inside binds no more tightly than what may
follow before the line comment: both comments start with a slash. -/
theorem follows_inlined {ps ts : List Token} {t : Token} (hps : ∀ p ∈ ps, p.text ≠ [])
    (ht : ∃ more, t.text = '/' :: '/' :: more) {next' : List Char}
    (h : Follows (ps ++ inlined t :: ts) next') :
    ∃ next, Follows (ps ++ t :: ts) next ∧ Looser next' next := by
  induction ps generalizing next' with
  | nil =>
    cases h with
    | done => exact ⟨[], .done _, atLineEnd_nil.atGap.looser⟩
    | gap hc => exact ⟨[], .done _, (atGap_cons hc _).looser⟩
    | token hu hf =>
      obtain ⟨more, ht⟩ := ht
      refine ⟨t.text ++ [], .token hu (.done _), ?_⟩
      intro c r' hr _
      obtain ⟨rfl, -⟩ : '/' = c ∧ _ = r' := List.cons.inj hr
      exact ⟨'/' :: more ++ [], by rw [ht]; rfl, fun hc => absurd hc (by decide)⟩
  | cons p ps ih =>
    cases h with
    | done => exact ⟨[], .done _, atLineEnd_nil.atGap.looser⟩
    | gap hc => exact ⟨[], .done _, (atGap_cons hc _).looser⟩
    | token hu hf =>
      obtain ⟨next, hn, hl⟩ := ih (fun q hq => hps q (by simp [hq])) hf
      exact ⟨p.text ++ next, .token hu hn, looser_text (hps p (by simp)) hl⟩

theorem legible_inlined {ps ts : List Token} {t : Token} (h : Legible (ps ++ t :: ts))
    (hk : NoLineComment ps) (ht : t.kind = .lineComment) (hu : Unclosed t.text) :
    Legible (ps ++ inlined t :: ts) := by
  have htext : ∃ more, t.text = '/' :: '/' :: more := by
    have hr := (h.of_append_right).1.reads
    rw [ht] at hr
    obtain ⟨more, hm, -⟩ := lineComment_of_reads hr
    exact ⟨more, hm⟩
  induction ps with
  | nil =>
    refine ⟨fun next _ _ => ?_, h.2⟩
    exact reads_inlineComment.2 (unclosed_trimEnd.2 hu)
  | cons p ps ih =>
    have hps : ∀ q ∈ ps, q.text ≠ [] := fun q hq =>
      Legible.text_ne_nil h.2 q (List.mem_append_left _ hq)
    refine ⟨fun next' hf _ => ?_, ih h.2 (noLineComment_cons.1 hk).2⟩
    obtain ⟨next, hn, hl⟩ := follows_inlined hps htext hf
    have hp := hk p (by simp)
    exact (h.1 next hn fun hc => absurd hc hp).of_looser hp hl

/-- What a run over tokens without imports has kept when the tokens `rest` are to come: `w` is what
the tokens read so far say, comments as they are written. -/
structure Kept (s : State) (previous : Option Token) (rest : List Token) (w : List Content) :
    Prop where
  imports : s.imports = []
  plain : NoLineComment s.pending
  legible : Legible (s.pending ++ rest)
  apart : Apart (previous.toList ++ rest)
  continued : s.carry ≠ none → isContinuation (s.pending ++ rest).head? = true
  spelled : ∃ u v, w = u ++ v ++ s.pending.map Token.content ∧
    Spells .contents AtLineEnd (page s.out) u ∧ Spells .contents AtGap (s.carry.getD []) v ∧
    (s.pending = [] → s.carry = none → (∀ p, previous = some p → p.kind ≠ .lineComment) →
      Spells .contents AtGap (page s.out) u)

variable {o : Options} {s : State} {previous : Option Token} {t : Token} {rest : List Token}
  {w : List Content}

theorem kept_start {ts : List Token} (hl : Legible ts) (ha : Apart ts) : Kept {} none ts [] where
  imports := rfl
  plain := noLineComment_nil
  legible := hl
  apart := ha
  continued := fun h => absurd rfl h
  spelled := ⟨[], [], rfl, spells_nil _ _, spells_nil _ _, fun _ _ _ => spells_nil _ _⟩

theorem kept_of_page (hi : s.imports = []) (hp : s.pending = []) (hc : s.carry = none)
    (hl : Legible rest) (ha : Apart (previous.toList ++ rest))
    (hw : Spells .contents AtLineEnd (page s.out) w)
    (hw' : (∀ p, previous = some p → p.kind ≠ .lineComment) → Spells .contents AtGap (page s.out) w) :
    Kept s previous rest w where
  imports := hi
  plain := by
    rw [hp]
    exact noLineComment_nil
  legible := by rwa [hp]
  apart := ha
  continued := fun h => absurd hc h
  spelled := ⟨w, [], by simp [hp], hw, by rw [hc]; exact spells_nil _ _, fun _ _ => hw'⟩

theorem kept_of_gap (hi : s.imports = []) (hp : s.pending = []) (hc : s.carry = none)
    (hl : Legible rest) (ha : Apart (previous.toList ++ rest))
    (hw : Spells .contents AtGap (page s.out) w) : Kept s previous rest w :=
  kept_of_page hi hp hc hl ha hw.atLineEnd fun _ => hw

end JpaScaffold.Java.Layout
