import JpaScaffold.Java.Layout
import JpaScaffold.Proofs.Java.Scan

/-!
# Written lines and the tokens they spell

A text spells tokens if they are read off in front of every text that may come next. A line that
ends in a line comment needs the end of the line; every other line is open to a blank. Lines keep
what they spell when they are set in, put behind other lines or parted by an empty line.

There are two readings of a text: what its tokens say, and the tokens themselves with the blanks
between them. What is spelled adds up in both alike.
-/
namespace JpaScaffold.Java.Layout

open Text (isBlank)

/-- What a token says: its kind and its text. -/
abbrev Content := TokenKind × List Char

/-- A way to read texts that passes over blanks. -/
structure Reading (α : Type) where
  read : List Char → Option (List α)
  /-- What joined tokens are read as. -/
  say : List Token → List α
  say_nil : say [] = []
  read_nil : read [] = some []
  read_blank {c : Char} {cs : List Char} (h : isBlank c = true) : read (c :: cs) = read cs
  read_joinTokens {ts : List Token} {next : List Char} (h : Legible ts) (hk : NoLineComment ts)
    (hn : AtGap next) : read (joinTokens ts ++ next) = (read next).map (say ts ++ ·)

/-- The tokens as they stand in a text, the first one behind a blank. -/
def leading : List Token → List Token
  | [] => []
  | t :: ts => t.detached :: ts.map Token.unlined

/-- Texts are read as what their tokens say. -/
def Reading.contents : Reading Content where
  read := Java.contents
  say := List.map Token.content
  say_nil := rfl
  read_nil := contents_nil
  read_blank := contents_blank
  read_joinTokens h hk hn := contents_joinTokens (by rwa [List.append_nil]) hk (hn.follows [])

/-- Texts are read as their tokens. -/
def Reading.tokens : Reading Token where
  read := scan true
  say := leading
  say_nil := rfl
  read_nil := scan_nil true
  read_blank := scan_blank
  read_joinTokens := by
    intro ts next h hk hn
    cases ts with
    | nil => simp [leading]
    | cons t ts =>
      rw [scan_joinTokens (by rwa [List.append_nil]) hk (hn.follows []), scan_of_atGap hn false true]
      rfl

variable {α : Type} {r : Reading α} {P Q : List Char → Prop} {cs : List Char} {w : List α}

/-- In front of every text that `P` admits, `cs` is read as `w`. -/
def Spells (r : Reading α) (P : List Char → Prop) (cs : List Char) (w : List α) : Prop :=
  ∀ next, P next → r.read (cs ++ next) = (r.read next).map (w ++ ·)

theorem spells_nil (r : Reading α) (P : List Char → Prop) : Spells r P [] [] := by
  intro next _
  simp

theorem Spells.contents_eq {w : List Content} (h : Spells .contents P cs w) {next : List Char}
    (hn : P next) : contents (cs ++ next) = (contents next).map (w ++ ·) :=
  h next hn

theorem Spells.scan_eq {w : List Token} (h : Spells .tokens P cs w) {next : List Char}
    (hn : P next) : scan true (cs ++ next) = (scan true next).map (w ++ ·) :=
  h next hn

theorem Spells.atLineEnd (h : Spells r AtGap cs w) : Spells r AtLineEnd cs w :=
  fun next hn => h next hn.atGap

theorem Spells.append {a b : List Char} {u v : List α} (ha : Spells r P a u) (hb : Spells r Q b v)
    (h : ∀ next, Q next → P (b ++ next)) : Spells r Q (a ++ b) (u ++ v) := by
  intro next hn
  rw [List.append_assoc, ha _ (h next hn), hb next hn, Option.map_map]
  simp [Function.comp_def]

theorem Spells.blank (h : Spells r P cs w) {c : Char} (hc : isBlank c = true) :
    Spells r P (c :: cs) w := by
  intro next hn
  rw [List.cons_append, r.read_blank hc, h next hn]

theorem Spells.blanks (h : Spells r P cs w) {gap : List Char} (hg : ∀ c ∈ gap, isBlank c = true) :
    Spells r P (gap ++ cs) w := by
  induction gap with
  | nil => exact h
  | cons c gap ih =>
    obtain ⟨hc, hg⟩ := List.forall_mem_cons.1 hg
    exact (ih hg).blank hc

theorem Spells.indent (h : Spells r P cs w) (n : Nat) :
    Spells r P (List.replicate n ' ' ++ cs) w := by
  refine h.blanks fun c hc => ?_
  rw [List.eq_of_mem_replicate hc]
  decide

theorem Spells.eq_nil (h : Spells r P [] w) (hP : P []) : w = [] := by
  have hw := h [] hP
  rw [List.append_nil, r.read_nil] at hw
  simpa using hw.symm

theorem spells_joinTokens {ts : List Token} (h : Legible ts) (hk : NoLineComment ts) :
    Spells r AtGap (joinTokens ts) (r.say ts) :=
  fun _ hn => r.read_joinTokens h hk hn

theorem spells_token {t : Token} (h : ∀ next, Reads t.kind t.text next)
    (hk : t.kind ≠ .lineComment) : Spells r AtGap t.text (r.say [t]) := by
  have hj : joinTokens [t] = t.text := by simp [joinTokens]
  rw [← hj]
  exact spells_joinTokens ⟨fun next _ _ => h next, trivial⟩
    (noLineComment_cons.2 ⟨hk, noLineComment_nil⟩)

theorem spells_of_reads {kind : TokenKind} {text : List Char}
    (h : ∀ next, P next → Reads kind text next) : Spells .contents P text [(kind, text)] :=
  fun next hn => contents_append (h next hn)

theorem spells_withCarry {carry : Option (List Char)} {text : List Char} {v w : List α}
    (hc : Spells r AtGap (carry.getD []) v) (ht : Spells r AtGap text w) :
    Spells r AtGap (withCarry carry text) (v ++ w) := by
  cases carry with
  | none =>
    rw [hc.eq_nil atLineEnd_nil.atGap]
    exact ht
  | some closed =>
    simp only [withCarry]
    split
    · next he =>
      rw [List.isEmpty_iff.1 he] at ht
      rw [ht.eq_nil atLineEnd_nil.atGap, List.append_nil]
      exact hc
    · have hb : Spells r AtGap (' ' :: text) w := ht.blank (by decide)
      exact hc.append hb fun next _ => atGap_cons (by decide) _

theorem spells_withBrace {header brace : List Char} {v w : List α}
    (hh : Spells r AtGap header v) (hb : Spells r AtGap brace w) :
    Spells r AtGap (withBrace header brace) (v ++ w) := by
  simp only [withBrace]
  split
  · next he =>
    rw [List.isEmpty_iff.1 he] at hh
    rw [hh.eq_nil atLineEnd_nil.atGap]
    exact hb
  · have hb' : Spells r AtGap (' ' :: brace) w := hb.blank (by decide)
    exact hh.append hb' fun next _ => atGap_cons (by decide) _

/-- The text of some lines, without a line feed behind the last one. -/
def page (lines : List (List Char)) : List Char := ['\n'].intercalate lines

@[simp] theorem page_nil : page [] = [] := rfl

@[simp] theorem page_singleton (line : List Char) : page [line] = line := by
  simp [page, List.intercalate_singleton]

theorem page_cons {line : List Char} {lines : List (List Char)} (h : lines ≠ []) :
    page (line :: lines) = line ++ '\n' :: page lines := by
  rw [page, List.intercalate_cons_of_ne_nil h]
  simp [page]

theorem page_append {lines more : List (List Char)} (h : lines ≠ []) (h' : more ≠ []) :
    page (lines ++ more) = page lines ++ '\n' :: page more := by
  induction lines with
  | nil => exact absurd rfl h
  | cons line lines ih =>
    cases lines with
    | nil => rw [List.singleton_append, page_cons h', page_singleton]
    | cons line' lines =>
      rw [List.cons_append, page_cons (by simp), page_cons (by simp), ih (by simp)]
      simp

theorem page_concat (lines : List (List Char)) (a b : List Char) :
    page (lines ++ [a ++ b]) = page (lines ++ [a]) ++ b := by
  cases lines with
  | nil => simp
  | cons line lines =>
    rw [page_append (by simp) (by simp), page_append (by simp) (by simp)]
    simp

theorem unlines_eq_page {lines : List (List Char)} (h : lines ≠ []) :
    unlines lines = page lines ++ ['\n'] := by
  induction lines with
  | nil => exact absurd rfl h
  | cons line lines ih =>
    cases lines with
    | nil => simp [unlines]
    | cons line' lines =>
      have ht := ih (by simp)
      rw [page_cons (by simp), List.append_assoc, List.cons_append, ← ht]
      simp [unlines]

theorem page_appendToLast {lines : List (List Char)} (h : lines ≠ []) (text : List Char) :
    page (appendToLast text lines) = page lines ++ text := by
  induction lines with
  | nil => exact absurd rfl h
  | cons line lines ih =>
    cases lines with
    | nil => simp [appendToLast]
    | cons line' lines =>
      have hne : appendToLast text (line' :: lines) ≠ [] := by
        cases lines <;> simp [appendToLast]
      have hrest : line' :: lines ≠ [] := by simp
      rw [appendToLast, page_cons hne, ih hrest, page_cons hrest]
      · simp
      · exact hrest

theorem Spells.page_append {lines more : List (List Char)} {u v : List α}
    (hu : Spells r AtLineEnd (page lines) u) (hv : Spells r P (page more) v)
    (h : more ≠ []) : Spells r P (page (lines ++ more)) (u ++ v) := by
  cases lines with
  | nil =>
    rw [page_nil] at hu
    rw [hu.eq_nil atLineEnd_nil]
    exact hv
  | cons line lines =>
    rw [Layout.page_append (by simp) h]
    have hv' : Spells r P ('\n' :: page more) v := hv.blank (by decide)
    exact hu.append hv' fun next _ => atLineEnd_cons _

theorem Spells.page_gap {lines : List (List Char)} {v : List α}
    (hv : Spells r P (page lines) v) (h : lines ≠ []) : Spells r P (page ([] :: lines)) v := by
  have hnil : Spells r AtLineEnd (page [[]]) [] := by
    rw [page_singleton]
    exact spells_nil _ _
  exact hnil.page_append hv h

theorem spells_page {lines : List (List Char)} {ws : List (List α)}
    (h : List.Forall₂ (Spells r AtGap) lines ws) : Spells r AtGap (page lines) ws.flatten := by
  induction h with
  | nil => exact spells_nil _ _
  | @cons line w lines ws hl h ih =>
    cases h with
    | nil => simpa using hl
    | cons hl' h' =>
      have hp : Spells r AtLineEnd (page [line]) w := by
        rw [page_singleton]
        exact hl.atLineEnd
      exact hp.page_append ih (by simp)

theorem spells_page_indent {lines : List (List Char)} {ws : List (List α)}
    (h : List.Forall₂ (Spells r AtGap) lines ws) (n : Nat) :
    Spells r AtGap (page (lines.map (List.replicate n ' ' ++ ·))) ws.flatten :=
  spells_page (List.forall₂_map_left_iff.2 (h.imp fun _ _ hl => hl.indent n))

end JpaScaffold.Java.Layout
