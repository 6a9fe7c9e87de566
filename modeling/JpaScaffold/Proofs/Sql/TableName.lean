import JpaScaffold.Proofs.Sql.Lexemes
import JpaScaffold.Sql.StatementParser

/-!
# The name of a table

A dotted name is read from its tokens part by part, and the table of a CREATE TABLE statement has the
last part for its name, whatever stands behind.
-/
namespace JpaScaffold.Sql

variable {rest : List Char} {ts : List Token}

/-! ## Parts of a name -/

theorem isDigit_of_startsWord {c : Char} (h : startsWord c = true) : c.isDigit = false := by
  cases hc : Text.isForeign c with
  | true =>
    have hle := Text.isForeign_iff.1 hc
    rw [Char.isDigit, Bool.and_eq_false_iff]
    right
    simp only [decide_eq_false_iff_not, UInt32.not_le, UInt32.lt_iff_toNat_lt]
    change 57 < c.toNat
    omega
  | false =>
    exact Ddl.forall_ascii (P := fun c => startsWord c = true → c.isDigit = false)
      (by decide +kernel) hc h

/-- A part of a dotted name, as it is written. -/
inductive NamePart where
  | word (cs : List Char)
  | quoted (cs : List Char)

namespace NamePart

def text : NamePart → List Char
  | word cs => cs
  | quoted cs => '"' :: (cs ++ ['"'])

/-- The part without its quotes. -/
def value : NamePart → List Char
  | word cs => cs
  | quoted cs => cs

def token : NamePart → Token
  | word cs => wordToken cs
  | quoted cs => .quotedName (String.ofList cs)

def ident : NamePart → Ident
  | word cs => ⟨String.ofList cs, none⟩
  | quoted cs => ⟨String.ofList cs, some '"'⟩

/-- The part is a word, or no quote stands inside of its quotes. -/
def Written : NamePart → Prop
  | word cs => ∃ c more, cs = c :: more ∧ startsWord c = true ∧ ∀ d ∈ more, continuesWord d = true
  | quoted cs => '"' ∉ cs

variable {p : NamePart}

theorem value_ident (p : NamePart) : p.ident.value = String.ofList p.value := by
  cases p <;> rfl

/-- A point, or a blank, a parenthesis or a semicolon stands behind a part of a name. -/
def Ends (rest : List Char) : Prop := EndsWord rest ∧ rest.head? ≠ some '"'

theorem Written.lexes (h : p.Written) (hrest : Ends rest) : Lexes p.text [p.token] rest := by
  cases p with
  | word cs =>
    obtain ⟨c, more, rfl, hc, hmore⟩ := h
    exact lexes_word hc hmore hrest.1
  | quoted cs => exact lexes_quoted h hrest.2

theorem Written.head (h : p.Written) (rest : List Char) :
    ∀ d ∈ (p.text ++ rest).head?, d.isDigit = false := by
  intro d hd
  cases p with
  | word cs =>
    obtain ⟨c, more, rfl, hc, -⟩ := h
    obtain rfl : c = d := by simpa [text] using hd
    exact isDigit_of_startsWord hc
  | quoted cs =>
    obtain rfl : '"' = d := by simpa [text] using hd
    rfl

end NamePart

/-- The parts behind the first one, with a point in front of each. -/
def pointedText (parts : List NamePart) : List Char := parts.flatMap fun p => '.' :: p.text

def pointedTokens (parts : List NamePart) : List Token :=
  parts.flatMap fun p => [.operator ".", p.token]

theorem ends_pointedText (parts : List NamePart) (hrest : NamePart.Ends rest) :
    NamePart.Ends (pointedText parts ++ rest) := by
  cases parts with
  | nil => exact hrest
  | cons p parts =>
    constructor
    · intro d hd
      obtain rfl : '.' = d := by simpa [pointedText] using hd
      decide +kernel
    · simp [pointedText]

theorem lexes_pointed (parts : List NamePart) (hparts : ∀ p ∈ parts, p.Written)
    (hrest : NamePart.Ends rest) : Lexes (pointedText parts) (pointedTokens parts) rest := by
  induction parts with
  | nil => exact lexes_nil rest
  | cons p parts ih =>
    obtain ⟨hp, hmore⟩ := List.forall_mem_cons.1 hparts
    have hpoint : Lexes ['.'] [.operator "."] (p.text ++ (pointedText parts ++ rest)) :=
      lexes_point (hp.head _)
    have hpart : Lexes p.text [p.token] (pointedText parts ++ rest) :=
      hp.lexes (ends_pointedText parts hrest)
    exact (hpoint.append hpart).append (ih hmore)

/-! ## Results of a parser -/

namespace Parser

variable {α β : Type} {P : β → Prop} {p : Parser α} {f : α → Parser β}

/-- What the parser takes from these tokens has the property. -/
def Yields (p : Parser β) (ts : List Token) (P : β → Prop) : Prop :=
  ∀ b rest, p ts = some (b, rest) → P b

theorem yields_pure {b : β} (h : P b) (ts : List Token) : Yields (pure b) ts P := by
  intro b' rest heq
  cases heq
  exact h

theorem yields_bind (h : ∀ a ts, Yields (f a) ts P) (ts : List Token) : Yields (p >>= f) ts P := by
  intro b rest heq
  obtain ⟨⟨a, ts'⟩, -, hf⟩ := Option.bind_eq_some_iff.1 heq
  exact h a ts' b rest hf

theorem yields_step {a : α} {left : List Token} (hp : p ts = some (a, left)) (h : Yields (f a) left P) :
    Yields (p >>= f) ts P := by
  intro b rest heq
  obtain ⟨found, hfound, hf⟩ := Option.bind_eq_some_iff.1 heq
  rw [hp] at hfound
  cases hfound
  exact h b rest hf

theorem yields_optional {b : Bool} {p : Parser Unit} {f : Unit → Parser β}
    (h : ∀ ts, Yields (f ()) ts P) (ts : List Token) :
    Yields (if b = true then p >>= fun u => f u else f ()) ts P := by
  cases b with
  | false => exact h ts
  | true => exact yields_bind (fun _ => h) ts

/-! ## The name -/

theorem ident_token (p : NamePart) (ts : List Token) : ident (p.token :: ts) = some (p.ident, ts) := by
  cases p <;> rfl

/-- A name behind a point, if a point stands in front. -/
def pointedIdent : Parser (Option Ident) := do
  if ← tryOperator "." then return some (← ident)
  return none

theorem pointedIdent_point (p : NamePart) (ts : List Token) :
    pointedIdent (.operator "." :: p.token :: ts) = some (some p.ident, ts) := by
  cases p <;> rfl

theorem pointedIdent_none (h : ts.head? ≠ some (.operator ".")) :
    pointedIdent ts = some (none, ts) := by
  have hnone : tryOperator "." ts = some (false, ts) := by
    cases ts with
    | nil => rfl
    | cons t ts =>
      have ht : t ≠ .operator "." := by simpa using h
      simp [tryOperator, Token.isOperator, ht]
  change (tryOperator "." ts).bind _ = _
  rw [hnone]
  rfl

theorem dottedIdents_pointed (parts : List NamePart) (hts : ts.head? ≠ some (.operator ".")) :
    dottedIdents (pointedTokens parts ++ ts) = some (parts.map NamePart.ident, ts) := by
  change many pointedIdent _ = _
  induction parts with
  | nil =>
    rw [pointedTokens, List.flatMap_nil, List.nil_append, many, pointedIdent_none hts]
    rfl
  | cons p parts ih =>
    have htokens : pointedTokens (p :: parts) ++ ts =
        .operator "." :: p.token :: (pointedTokens parts ++ ts) := by
      simp [pointedTokens]
    rw [htokens, many, pointedIdent_point]
    have hlt : (pointedTokens parts ++ ts).length <
        (Token.operator "." :: p.token :: (pointedTokens parts ++ ts)).length := by
      simp only [List.length_cons]
      omega
    dsimp only
    rw [if_pos hlt, ih]
    rfl

theorem createTable_yields (first : NamePart) (more : List NamePart) (condition : List Token)
    (hcondition : tryKeywords ["IF", "NOT", "EXISTS"] (condition ++ first.token :: (pointedTokens more ++ ts)) =
      some (!condition.isEmpty, first.token :: (pointedTokens more ++ ts)))
    (hts : ts.head? ≠ some (.operator ".")) :
    Yields createTable (condition ++ first.token :: (pointedTokens more ++ ts)) fun statement =>
      ∃ s, statement = .createTable s ∧ s.name = (more.getLast?.getD first).ident := by
  unfold createTable
  refine yields_step hcondition (yields_step (ident_token first _) ?_)
  refine yields_step (dottedIdents_pointed more hts) ?_
  refine yields_bind (fun b => yields_optional ?_) _
  refine yields_bind (fun b => yields_optional ?_)
  refine yields_bind fun found => yields_bind fun _ => yields_pure ?_
  refine ⟨_, rfl, ?_⟩
  rw [List.getLast?_map]
  cases more.getLast? <;> rfl

/-- A statement behind semicolons is read first. -/
theorem statement_of_statements {semicolons : List Token} {s : Statement} {more : List Statement}
    {t : Token} (hsemicolons : ∀ t ∈ semicolons, t = .operator ";") (ht : t ≠ .operator ";")
    (h : statements (semicolons ++ t :: ts) = some (s :: more)) :
    ∃ rest, statement (t :: ts) = some (s, rest) := by
  have hskip : skipSemicolons (semicolons ++ t :: ts) = t :: ts := by
    unfold skipSemicolons
    rw [List.dropWhile_append_of_pos]
    · simp [Token.isOperator, ht]
    · intro t' ht'
      rw [hsemicolons t' ht']
      rfl
  rw [statements, hskip] at h
  rw [if_neg (by simp)] at h
  split at h
  · cases h
  · next hs =>
    cases h
    exact ⟨_, hs⟩
  · next hs =>
    split at h
    · cases h
      exact ⟨_, hs⟩
    · split at h
      · obtain ⟨_, -, heq⟩ := Option.map_eq_some_iff.1 h
        cases heq
        exact ⟨_, hs⟩
      · cases h

theorem name_of_statements {semicolons condition : List Token} {create table : String}
    {first : NamePart} {names : List NamePart} {s : CreateTable} {more : List Statement}
    (hsemicolons : ∀ t ∈ semicolons, t = .operator ";")
    (hcondition : tryKeywords ["IF", "NOT", "EXISTS"]
      (condition ++ first.token :: (pointedTokens names ++ ts)) =
        some (!condition.isEmpty, first.token :: (pointedTokens names ++ ts)))
    (hts : ts.head? ≠ some (.operator "."))
    (h : statements (semicolons ++ .word create "CREATE" :: .word table "TABLE" ::
      (condition ++ first.token :: (pointedTokens names ++ ts))) = some (.createTable s :: more)) :
    s.name = (names.getLast?.getD first).ident := by
  obtain ⟨rest, hstatement⟩ := statement_of_statements hsemicolons (by simp) h
  obtain ⟨s', hs', hname⟩ := createTable_yields first names condition hcondition hts _ rest hstatement
  cases hs'
  exact hname

end Parser

end JpaScaffold.Sql
