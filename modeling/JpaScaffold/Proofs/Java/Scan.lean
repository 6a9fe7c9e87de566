import JpaScaffold.Proofs.Java.Lexeme
import Mathlib.Data.List.TakeWhile

/-!
# Tokens and the texts that spell them

`scan` reads a text as tokens without their lines. Tokens that were read from one text are legible:
each of them is read again in front of every text that may follow it, whatever blanks are put
between the tokens. The text that joins them is then read as the same tokens.
-/
namespace JpaScaffold.Java

open Text (isBlank)

def Token.unlined (t : Token) : Token := { t with line := 0 }

def Token.detached (t : Token) : Token := { t with spaced := true, line := 0 }

def scan (spaced : Bool) (cs : List Char) : Option (List Token) :=
  (tokensFrom 0 spaced cs).toOption.map (·.map Token.unlined)

/-- What the tokens of a text say. -/
def contents (cs : List Char) : Option (List (TokenKind × List Char)) :=
  (scan false cs).map (·.map Token.content)

theorem tokensFrom_blank {line : Nat} {spaced : Bool} {c : Char} {cs : List Char}
    (h : isBlank c = true) :
    tokensFrom line spaced (c :: cs) =
      tokensFrom (if c = '\n' then line + 1 else line) true cs := by
  rw [tokensFrom, if_pos h]

theorem tokensFrom_lexeme {line : Nat} {spaced : Bool} {c : Char} {cs : List Char} {l : Lexeme}
    (hb : isBlank c = false) (h : lexeme c cs = .ok l) :
    tokensFrom line spaced (c :: cs) =
      (tokensFrom (l.nextLine line) false l.rest).map (⟨l.kind, l.text, spaced, line⟩ :: ·) := by
  rw [tokensFrom, if_neg (by simp [hb])]
  split
  · next he => rw [h] at he; cases he
  · next l' he => rw [h] at he; cases he; rfl

theorem tokensFrom_fault {line : Nat} {spaced : Bool} {c : Char} {cs : List Char}
    {fault : SourceFault} (hb : isBlank c = false) (h : lexeme c cs = .error fault) :
    tokensFrom line spaced (c :: cs) = .error ⟨line, fault⟩ := by
  rw [tokensFrom, if_neg (by simp [hb])]
  split
  · next he => rw [h] at he; cases he; rfl
  · next l' he => rw [h] at he; cases he

/-- The tokens of a text, lexeme by lexeme. -/
inductive Lexed : Nat → Bool → List Char → List Token → Prop
  | nil (line : Nat) (spaced : Bool) : Lexed line spaced [] []
  | blank {line : Nat} {c : Char} {cs : List Char} {ts : List Token} (spaced : Bool)
      (hb : isBlank c = true) (h : Lexed (if c = '\n' then line + 1 else line) true cs ts) :
      Lexed line spaced (c :: cs) ts
  | lexeme {line : Nat} {c : Char} {cs : List Char} {l : Lexeme} {ts : List Token} (spaced : Bool)
      (hb : isBlank c = false) (hx : lexeme c cs = .ok l)
      (h : Lexed (l.nextLine line) false l.rest ts) :
      Lexed line spaced (c :: cs) (⟨l.kind, l.text, spaced, line⟩ :: ts)

theorem lexed_of_tokensFrom {line : Nat} {spaced : Bool} {cs : List Char} {ts : List Token}
    (h : tokensFrom line spaced cs = .ok ts) : Lexed line spaced cs ts := by
  induction hn : cs.length using Nat.strong_induction_on generalizing line spaced cs ts with
  | _ n ih =>
  subst hn
  cases cs with
  | nil =>
    simp only [tokensFrom, Except.ok.injEq] at h
    subst h
    exact .nil line spaced
  | cons c cs =>
    cases hb : isBlank c with
    | true =>
      rw [tokensFrom_blank hb] at h
      exact .blank spaced hb (ih _ (by simp) h rfl)
    | false =>
      cases hx : lexeme c cs with
      | error fault =>
        rw [tokensFrom_fault hb hx] at h
        cases h
      | ok l =>
        rw [tokensFrom_lexeme hb hx] at h
        cases hr : tokensFrom (l.nextLine line) false l.rest with
        | error e =>
          rw [hr] at h
          cases h
        | ok us =>
          rw [hr] at h
          cases h
          exact .lexeme spaced hb hx (ih _ (lexeme_rest_lt hx) hr rfl)

theorem toOption_map_cons (e : Except SourceError (List Token)) (t : Token) :
    (e.map (t :: ·)).toOption.map (·.map Token.unlined) =
      (e.toOption.map (·.map Token.unlined)).map (t.unlined :: ·) := by
  cases e <;> rfl

/-- The line on which a text starts does not matter to its tokens. -/
theorem scan_of_tokensFrom (line : Nat) (spaced : Bool) (cs : List Char) :
    (tokensFrom line spaced cs).toOption.map (·.map Token.unlined) = scan spaced cs := by
  induction hn : cs.length using Nat.strong_induction_on generalizing line spaced cs with
  | _ n ih =>
  subst hn
  unfold scan
  cases cs with
  | nil => simp [tokensFrom]
  | cons c cs =>
    cases hb : isBlank c with
    | true =>
      rw [tokensFrom_blank hb, tokensFrom_blank hb, ih _ (by simp) _ _ _ rfl,
        ih _ (by simp) _ _ _ rfl]
    | false =>
      cases hx : lexeme c cs with
      | error fault => simp [tokensFrom_fault hb hx, Except.toOption]
      | ok l =>
        rw [tokensFrom_lexeme hb hx, tokensFrom_lexeme hb hx, toOption_map_cons, toOption_map_cons,
          ih _ (lexeme_rest_lt hx) _ _ _ rfl, ih _ (lexeme_rest_lt hx) _ _ _ rfl]
        rfl

@[simp] theorem scan_nil (spaced : Bool) : scan spaced [] = some [] := by
  simp [scan, tokensFrom, Except.toOption]

theorem scan_blank {spaced : Bool} {c : Char} {cs : List Char} (h : isBlank c = true) :
    scan spaced (c :: cs) = scan true cs := by
  rw [scan, tokensFrom_blank h, scan_of_tokensFrom]

theorem scan_lexeme {spaced : Bool} {c : Char} {cs : List Char} {l : Lexeme}
    (hb : isBlank c = false) (h : lexeme c cs = .ok l) :
    scan spaced (c :: cs) = (scan false l.rest).map (⟨l.kind, l.text, spaced, 0⟩ :: ·) := by
  rw [scan, tokensFrom_lexeme hb h, toOption_map_cons, scan_of_tokensFrom]
  rfl

theorem scan_append {kind : TokenKind} {text next : List Char} (h : Reads kind text next)
    (spaced : Bool) :
    scan spaced (text ++ next) = (scan false next).map (⟨kind, text, spaced, 0⟩ :: ·) := by
  obtain ⟨c, rest, rfl, hb, hx⟩ := h
  rw [List.cons_append, scan_lexeme hb hx]

theorem scan_of_atGap {cs : List Char} (h : AtGap cs) (spaced spaced' : Bool) :
    scan spaced cs = scan spaced' cs := by
  cases cs with
  | nil => simp
  | cons c cs => rw [scan_blank (h c rfl), scan_blank (h c rfl)]

theorem contents_of_scan (spaced : Bool) (cs : List Char) :
    (scan spaced cs).map (·.map Token.content) = contents cs := by
  cases cs with
  | nil => simp [contents]
  | cons c cs =>
    unfold contents
    cases hb : isBlank c with
    | true => rw [scan_blank hb, scan_blank hb]
    | false =>
      cases hx : lexeme c cs with
      | error fault => simp [scan, tokensFrom_fault hb hx, Except.toOption]
      | ok l =>
        rw [scan_lexeme hb hx, scan_lexeme hb hx, Option.map_map, Option.map_map]
        rfl

@[simp] theorem contents_nil : contents [] = some [] := by simp [contents]

theorem contents_blank {c : Char} {cs : List Char} (h : isBlank c = true) :
    contents (c :: cs) = contents cs := by
  rw [contents, scan_blank h, contents_of_scan]

theorem contents_append {kind : TokenKind} {text next : List Char} (h : Reads kind text next) :
    contents (text ++ next) = (contents next).map ((kind, text) :: ·) := by
  rw [contents, scan_append h, contents, Option.map_map, Option.map_map]
  rfl

theorem exists_tokens_of_contents {cs : List Char} {w : List (TokenKind × List Char)}
    (h : contents cs = some w) : ∃ ts, tokenize cs = .ok ts ∧ ts.map Token.content = w := by
  rw [contents, ← scan_of_tokensFrom 1] at h
  unfold tokenize
  cases ht : tokensFrom 1 false cs with
  | error e => simp [ht, Except.toOption] at h
  | ok ts =>
    refine ⟨ts, rfl, ?_⟩
    simp only [ht, Except.toOption, Option.map_some, Option.some.injEq, List.map_map] at h
    exact h

theorem contents_eq_some_iff {cs : List Char} {w : List (TokenKind × List Char)} :
    contents cs = some w ↔ ∃ ts, tokenize cs = .ok ts ∧ ts.map Token.content = w := by
  refine ⟨exists_tokens_of_contents, ?_⟩
  rintro ⟨ts, ht, rfl⟩
  unfold tokenize at ht
  rw [contents, ← scan_of_tokensFrom 1, ht]
  simp only [Except.toOption, Option.map_some, List.map_map]
  rfl

theorem exists_lexed {cs : List Char} {w : List (TokenKind × List Char)}
    (h : contents cs = some w) (spaced : Bool) :
    ∃ ts, Lexed 0 spaced cs ts ∧ ts.map Token.content = w := by
  rw [← contents_of_scan spaced, scan] at h
  cases ht : tokensFrom 0 spaced cs with
  | error e =>
    rw [ht] at h
    cases h
  | ok ts =>
    refine ⟨ts, lexed_of_tokensFrom ht, ?_⟩
    simp only [ht, Except.toOption, Option.map_some, Option.some.injEq, List.map_map] at h
    exact h

/-- The texts that may stand before the given tokens: those that spell them as far as no blank
comes in between. -/
inductive Follows : List Token → List Char → Prop
  | done (ts : List Token) : Follows ts []
  | gap {c : Char} (hc : isBlank c = true) (ts : List Token) (cs : List Char) : Follows ts (c :: cs)
  | token {u : Token} {ts : List Token} {cs : List Char} (hu : u.spaced = false)
      (h : Follows ts cs) : Follows (u :: ts) (u.text ++ cs)

theorem AtGap.follows {cs : List Char} (h : AtGap cs) (ts : List Token) : Follows ts cs := by
  cases cs with
  | nil => exact .done ts
  | cons c cs => exact .gap (h c rfl) ts cs

theorem Follows.append_right {ts : List Token} {cs : List Char} (h : Follows ts cs)
    (us : List Token) : Follows (ts ++ us) cs := by
  induction h with
  | done ts => exact .done _
  | gap hc ts cs => exact .gap hc _ cs
  | token hu _ ih => exact .token hu ih

theorem Follows.atGap_of_spaced {u : Token} {ts : List Token} {cs : List Char}
    (h : Follows (u :: ts) cs) (hu : u.spaced = true) : AtGap cs := by
  cases h with
  | done => exact atLineEnd_nil.atGap
  | gap hc => exact atGap_cons hc _
  | token hn => rw [hn] at hu; cases hu

theorem Follows.atGap_of_nil {cs : List Char} (h : Follows [] cs) : AtGap cs := by
  cases h with
  | done => exact atLineEnd_nil.atGap
  | gap hc => exact atGap_cons hc _

/-- The token is read again in front of everything that may follow before the tokens `ts`. A line
comment needs the end of its line. -/
def Token.Readable (t : Token) (ts : List Token) : Prop :=
  ∀ next, Follows ts next → (t.kind = .lineComment → AtLineEnd next) → Reads t.kind t.text next

theorem Token.Readable.reads {t : Token} {ts : List Token} (h : t.Readable ts) :
    Reads t.kind t.text [] :=
  h [] (.done ts) fun _ => atLineEnd_nil

theorem Token.Readable.text_ne_nil {t : Token} {ts : List Token} (h : t.Readable ts) :
    t.text ≠ [] := by
  obtain ⟨c, rest, he, -⟩ := h.reads
  simp [he]

/-- Every token is read again in front of what follows it. -/
def Legible : List Token → Prop
  | [] => True
  | t :: ts => t.Readable ts ∧ Legible ts

theorem Token.Readable.of_append {t : Token} {ts us : List Token} (h : t.Readable (ts ++ us)) :
    t.Readable ts :=
  fun next hf hk => h next (hf.append_right us) hk

theorem Legible.of_append_right {ts us : List Token} (h : Legible (ts ++ us)) : Legible us := by
  induction ts with
  | nil => exact h
  | cons t ts ih => exact ih h.2

theorem Legible.of_append_left {ts us : List Token} (h : Legible (ts ++ us)) : Legible ts := by
  induction ts with
  | nil => trivial
  | cons t ts ih => exact ⟨h.1.of_append, ih h.2⟩

theorem Legible.text_ne_nil {ts : List Token} (h : Legible ts) : ∀ t ∈ ts, t.text ≠ [] := by
  induction ts with
  | nil =>
    intro t ht
    cases ht
  | cons u ts ih =>
    intro t ht
    rcases List.mem_cons.1 ht with rfl | ht
    · exact h.1.text_ne_nil
    · exact ih h.2 t ht

theorem takeWhile_lineEnd {cs next : List Char} (h : AtLineEnd next) :
    (cs.takeWhile (· ≠ '\n') ++ next).takeWhile (· ≠ '\n') = cs.takeWhile (· ≠ '\n') ∧
      (cs.takeWhile (· ≠ '\n') ++ next).dropWhile (· ≠ '\n') = next := by
  have hall : ∀ c ∈ cs.takeWhile (· ≠ '\n'), decide (c ≠ '\n') = true := by
    intro c hc
    have hmem := List.mem_takeWhile_imp hc
    exact hmem
  rw [List.takeWhile_append_of_pos hall, List.dropWhile_append_of_pos hall]
  cases next with
  | nil => simp
  | cons c next =>
    have hc := h c rfl
    subst hc
    simp

theorem reads_lexeme {c : Char} {cs : List Char} {l : Lexeme} (hb : isBlank c = false)
    (h : lexeme c cs = .ok l) : Reads l.kind l.text l.rest := by
  have happ := lexeme_append h
  obtain ⟨d, rest, ht⟩ := List.exists_cons_of_ne_nil (lexeme_text_ne_nil h)
  rw [ht, List.cons_append, List.cons.injEq] at happ
  obtain ⟨rfl, rfl⟩ := happ
  exact ⟨d, rest, ht, hb, h⟩

/-- A lexeme is read again in front of everything that binds no more tightly than what it was cut
from; a line comment is read again at the end of a line. -/
theorem Reads.of_lexeme {c : Char} {cs next : List Char} {l : Lexeme} (hb : isBlank c = false)
    (h : lexeme c cs = .ok l) (hl : Looser next l.rest)
    (hk : l.kind = .lineComment → AtLineEnd next) : Reads l.kind l.text next := by
  by_cases hc : l.kind = .lineComment
  · have hcuts := cuts_of_lexeme h
    cases hcuts with
    | lineComment rest =>
      refine ⟨'/', '/' :: rest.takeWhile (· ≠ '\n'), rfl, hb, ?_⟩
      obtain ⟨h1, h2⟩ := @takeWhile_lineEnd rest _ (hk hc)
      have hx := lexeme_of_cuts (.lineComment (rest.takeWhile (· ≠ '\n') ++ next))
      rw [h1, h2] at hx
      exact hx
    | blockComment => cases hc
    | literal => cases hc
    | word => cases hc
    | mark =>
      rw [operator_kind] at hc
      cases hc
  · exact (reads_lexeme hb h).of_looser hc hl

theorem Lexed.spaced_head {line : Nat} {spaced : Bool} {cs : List Char} {u : Token}
    {ts : List Token} (h : Lexed line spaced cs (u :: ts)) (hs : spaced = true) :
    u.spaced = true := by
  generalize hus : u :: ts = us at h
  induction h with
  | nil => cases hus
  | blank _ _ _ ih => exact ih rfl hus
  | lexeme =>
    cases hus
    exact hs

/-- What may follow a lexeme before the tokens behind it binds no more tightly than they do. -/
theorem looser_text {text rest next : List Char} (hne : text ≠ []) (h : Looser next rest) :
    Looser (text ++ next) (text ++ rest) := by
  obtain ⟨c, text, rfl⟩ := List.exists_cons_of_ne_nil hne
  intro d r' hr hd
  obtain ⟨rfl, rfl⟩ : c = d ∧ text ++ next = r' := by simpa using hr
  refine ⟨text ++ rest, rfl, fun _ hdigit => ?_⟩
  cases text with
  | cons e text => exact hdigit
  | nil =>
    cases next with
    | nil => simp [startsWithDigit] at hdigit
    | cons e next =>
      have he : isBlank e = false := isBlank_eq_false_of_isWordChar (isWordChar_of_isDigit hdigit)
      obtain ⟨r, rfl, -⟩ := h e next rfl he
      exact hdigit

theorem looser_append_gap {next : List Char} (hn : AtGap next) (rest : List Char) :
    Looser (rest ++ next) rest := by
  cases rest with
  | nil => exact hn.looser
  | cons c rest =>
    have h : Looser (c :: rest ++ next) (c :: rest ++ []) := looser_text (by simp) hn.looser
    rwa [List.append_nil] at h

theorem Lexed.legible {line : Nat} {spaced : Bool} {cs : List Char} {ts : List Token}
    (h : Lexed line spaced cs ts) : Legible ts ∧ ∀ next, Follows ts next → Looser next cs := by
  induction h with
  | nil => exact ⟨trivial, fun next hf => hf.atGap_of_nil.looser⟩
  | @blank line c cs ts _ hb h ih =>
    refine ⟨ih.1, fun next hf => ?_⟩
    cases ts with
    | nil => exact hf.atGap_of_nil.looser
    | cons u ts => exact (hf.atGap_of_spaced (h.spaced_head rfl)).looser
  | lexeme spaced hb hx h ih =>
    refine ⟨⟨fun next hf hk => .of_lexeme hb hx (ih.2 next hf) hk, ih.1⟩, fun next hf => ?_⟩
    rw [← lexeme_append hx]
    cases hf with
    | done => exact atLineEnd_nil.atGap.looser
    | gap hc => exact (atGap_cons hc _).looser
    | token hu hf => exact looser_text (lexeme_text_ne_nil hx) (ih.2 _ hf)

theorem Lexed.scan_append {line : Nat} {spaced : Bool} {cs : List Char} {ts : List Token}
    (h : Lexed line spaced cs ts) (hk : ∀ t ∈ ts, t.kind ≠ .lineComment) {next : List Char}
    (hn : AtGap next) :
    scan spaced (cs ++ next) = (scan true next).map (ts.map Token.unlined ++ ·) := by
  induction h with
  | nil line spaced => simp [scan_of_atGap hn spaced true]
  | blank spaced hb h ih => rw [List.cons_append, scan_blank hb, ih hk]
  | lexeme spaced hb hx h ih =>
    obtain ⟨hcode, hk⟩ := List.forall_mem_cons.1 hk
    have hreads := Reads.of_lexeme hb hx (looser_append_gap hn _) fun hc => absurd hc hcode
    rw [← lexeme_append hx, List.append_assoc, Java.scan_append hreads, ih hk, Option.map_map]
    rfl

theorem legible_of_tokenize {source : List Char} {ts : List Token}
    (h : tokenize source = .ok ts) : Legible ts :=
  (lexed_of_tokensFrom h).legible.1

/-- The text behind a token that spells the tokens `ts`. -/
def spread (ts : List Token) : List Char :=
  ts.flatMap fun u => if u.spaced then ' ' :: u.text else u.text

@[simp] theorem spread_nil : spread [] = [] := rfl

theorem spread_cons (t : Token) (ts : List Token) :
    spread (t :: ts) = (if t.spaced then ' ' :: t.text else t.text) ++ spread ts := rfl

theorem spread_append (ts us : List Token) : spread (ts ++ us) = spread ts ++ spread us :=
  List.flatMap_append

@[simp] theorem joinTokens_nil : joinTokens [] = [] := rfl

theorem joinTokens_cons (t : Token) (ts : List Token) :
    joinTokens (t :: ts) = t.text ++ spread ts := rfl

theorem follows_spread (ts : List Token) {us : List Token} {next : List Char}
    (h : Follows us next) : Follows (ts ++ us) (spread ts ++ next) := by
  induction ts with
  | nil => exact h
  | cons t ts ih =>
    rw [spread_cons, List.append_assoc]
    cases hs : t.spaced with
    | true => exact .gap (by decide) _ _
    | false => exact .token hs ih

/-- The tokens hold no line comment. -/
def NoLineComment (ts : List Token) : Prop := ∀ t ∈ ts, t.kind ≠ .lineComment

theorem noLineComment_nil : NoLineComment [] := List.forall_mem_nil _

theorem noLineComment_cons {t : Token} {ts : List Token} :
    NoLineComment (t :: ts) ↔ t.kind ≠ .lineComment ∧ NoLineComment ts :=
  List.forall_mem_cons

theorem noLineComment_append {ts us : List Token} :
    NoLineComment (ts ++ us) ↔ NoLineComment ts ∧ NoLineComment us :=
  List.forall_mem_append

theorem noLineComment_concat {ts : List Token} {t : Token} :
    NoLineComment (ts ++ [t]) ↔ NoLineComment ts ∧ t.kind ≠ .lineComment := by
  rw [noLineComment_append, noLineComment_cons]
  exact and_congr_right fun _ => and_iff_left noLineComment_nil

variable {ts us : List Token} {next : List Char}

theorem scan_spread (h : Legible (ts ++ us)) (hk : NoLineComment ts) (hn : Follows us next) :
    scan false (spread ts ++ next) = (scan false next).map (ts.map Token.unlined ++ ·) := by
  induction ts with
  | nil => simp
  | cons t ts ih =>
    have hr : Reads t.kind t.text (spread ts ++ next) :=
      h.1 _ (follows_spread ts hn) fun hc => absurd hc (hk t (by simp))
    have ht := ih h.2 fun u hu => hk u (by simp [hu])
    rw [spread_cons, List.append_assoc]
    cases hs : t.spaced with
    | true =>
      simp only [if_true, List.cons_append]
      rw [scan_blank (by decide), scan_append hr, ht, Option.map_map]
      simp [Token.unlined, hs, Function.comp_def]
    | false =>
      simp only [Bool.false_eq_true, if_false]
      rw [scan_append hr, ht, Option.map_map]
      simp [Token.unlined, hs, Function.comp_def]

/-- The text that joins legible tokens is read as the same tokens; the first one is spaced as the
place where it stands says. -/
theorem scan_joinTokens {t : Token} (h : Legible (t :: ts ++ us)) (hk : NoLineComment (t :: ts))
    (hn : Follows us next) (spaced : Bool) :
    scan spaced (joinTokens (t :: ts) ++ next) =
      (scan false next).map ({ t with spaced, line := 0 } :: ts.map Token.unlined ++ ·) := by
  have hr : Reads t.kind t.text (spread ts ++ next) :=
    h.1 _ (follows_spread ts hn) fun hc => absurd hc (hk t (by simp))
  rw [joinTokens_cons, List.append_assoc, scan_append hr,
    scan_spread h.2 (fun u hu => hk u (by simp [hu])) hn, Option.map_map]
  rfl

theorem contents_joinTokens (h : Legible (ts ++ us)) (hk : NoLineComment ts)
    (hn : Follows us next) :
    contents (joinTokens ts ++ next) = (contents next).map (ts.map Token.content ++ ·) := by
  cases ts with
  | nil => simp
  | cons t ts =>
    rw [contents, scan_joinTokens h hk hn, contents, Option.map_map, Option.map_map]
    simp only [Function.comp_def, List.cons_append, List.map_cons, List.map_append, List.map_map]
    rfl

end JpaScaffold.Java
