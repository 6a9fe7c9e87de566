import JpaScaffold.Proofs.Ddl.Safety
import JpaScaffold.Proofs.Java.Lexeme
import JpaScaffold.Proofs.Text.Words
import JpaScaffold.Sql.TypeName

/-!
# Types however they are written

A type is declared by words, a list of arguments in parentheses at will, and further words. It may be
written with letters of either case and with blanks between and around its parts. The name and the
arguments that are read are those of the declaration, so they do not depend on how it is written.
-/
namespace JpaScaffold.Sql

open Ddl (forall_ascii isBlank_toLower toLower_of_foreign)
open Java (forall_blank)
open Text (isBlank isForeign words)

variable {c : Char} {cs ds inside w : List Char} {ws : List (List Char)}

/-! ## Characters -/

/-- A character that parts the arguments of a type or stands around them. -/
def isMark (c : Char) : Bool := c == ',' || c == '(' || c == ')'

/-- A character that may stand in a word of a type. -/
def isInner (c : Char) : Bool := !isForeign c && !isBlank c && !isMark c

theorem isInner_iff :
    isInner c = true ↔ isForeign c = false ∧ isBlank c = false ∧ isMark c = false := by
  simp [isInner, and_assoc]

theorem isMark_toLower (c : Char) : isMark c.toLower = isMark c := by
  cases h : isForeign c with
  | true => rw [toLower_of_foreign h]
  | false => exact forall_ascii (P := fun c => isMark c.toLower = isMark c) (by decide) h

theorem isForeign_toLower (c : Char) : isForeign c.toLower = isForeign c := by
  cases h : isForeign c with
  | true => rw [toLower_of_foreign h, h]
  | false => exact forall_ascii (P := fun c => isForeign c.toLower = false) (by decide) h

theorem isInner_toLower (c : Char) : isInner c.toLower = isInner c := by
  rw [isInner, isForeign_toLower, isBlank_toLower, isMark_toLower]
  rfl

theorem isInner_of_isDigit (h : c.isDigit = true) : isInner c = true ∧ c.toLower = c := by
  have hle : c.toNat ≤ 57 :=
    UInt32.le_iff_toNat_le.1 (of_decide_eq_true (Bool.and_eq_true_iff.1 h).2)
  have hascii : isForeign c = false := by
    by_contra hforeign
    have hge := Text.isForeign_iff.1 (eq_true_of_ne_false hforeign)
    omega
  exact forall_ascii (P := fun c => c.isDigit = true → isInner c = true ∧ c.toLower = c) (by decide)
    hascii h

/-- Where every character is a blank or one of ASCII, each is mapped on its own. -/
theorem lower_eq_map (h : ∀ c ∈ cs, isBlank c = true ∨ isForeign c = false) :
    Text.lower cs = cs.map Char.toLower := by
  have hform (c : Char) (hc : isBlank c = true ∨ isForeign c = false) :
      Text.lowerForm c = [c.toLower] ∧ c ≠ 'Σ' := by
    rcases hc with hc | hc
    · have hblank := forall_blank (p := fun c => Text.lowerForm c == [c.toLower] && c != 'Σ')
        (by decide) hc
      simpa using hblank
    · exact forall_ascii (P := fun c => Text.lowerForm c = [c.toLower] ∧ c ≠ 'Σ') (by decide) hc
  have hafter (before : List Char) : Text.lowerAfter before cs = cs.map Char.toLower := by
    induction cs generalizing before with
    | nil => rfl
    | cons c cs ih =>
      obtain ⟨hc, hcs⟩ := List.forall_mem_cons.1 h
      obtain ⟨hlower, hsigma⟩ := hform c hc
      rw [Text.lowerAfter, ih hcs, if_neg (by simpa using hsigma), hlower]
      rfl
  exact hafter []

/-! ## Declarations -/

/-- A word of a type. -/
structure Word where
  chars : List Char
  ne_nil : chars ≠ []
  inner : ∀ c ∈ chars, isInner c = true

/-- An argument of a type: a number of sixty-four bits, with the words of its unit behind it. -/
structure Argument where
  value : Nat
  value_lt : value < Text.countLimit
  unit : List Word

def Argument.digits (a : Argument) : Word where
  chars := Nat.toDigits 10 a.value
  ne_nil := Nat.toDigits_ne_nil
  inner c hc := (isInner_of_isDigit (Nat.isDigit_of_mem_toDigits (by decide) (by decide) hc)).1

/-- A type by its words, and by its arguments between them if it has a list of arguments. -/
structure Declared where
  before : List Word
  before_ne_nil : before ≠ []
  args : Option (List Argument)
  behind : List Word

/-- The text writes the words: each in letters of either case, with blanks between two of them and at
will around them. -/
inductive Spaced : List Word → List Char → Prop
  | nil {gap : List Char} (hgap : ∀ c ∈ gap, isBlank c = true) : Spaced [] gap
  | cons {gap written cs : List Char} {w : Word} {ws : List Word}
    (hgap : ∀ c ∈ gap, isBlank c = true) (hcase : written.map Char.toLower = w.chars.map Char.toLower)
    (hnext : ws ≠ [] → ∃ c, cs.head? = some c ∧ isBlank c = true) (h : Spaced ws cs) :
    Spaced (w :: ws) (gap ++ written ++ cs)

/-- The text writes the arguments, with commas between them. -/
inductive Listed : List Argument → List Char → Prop
  | nil {gap : List Char} (hgap : ∀ c ∈ gap, isBlank c = true) : Listed [] gap
  | last {a : Argument} {cs : List Char} (h : Spaced (a.digits :: a.unit) cs) : Listed [a] cs
  | cons {a b : Argument} {args : List Argument} {cs ds : List Char}
    (h : Spaced (a.digits :: a.unit) cs) (hrest : Listed (b :: args) ds) :
    Listed (a :: b :: args) (cs ++ ',' :: ds)

namespace Declared

/-- The text writes the declaration. -/
inductive Written (d : Declared) : List Char → Prop
  | bare {cs : List Char} (hargs : d.args = none) (h : Spaced (d.before ++ d.behind) cs) : Written d cs
  | applied {args : List Argument} {cs inside ds : List Char} (hargs : d.args = some args)
    (hbefore : Spaced d.before cs) (hinside : Listed args inside) (hbehind : Spaced d.behind ds) :
    Written d (cs ++ '(' :: inside ++ ')' :: ds)

/-- The words of a declaration in lower case. -/
def words (d : Declared) : List (List Char) :=
  (d.before ++ d.behind).map fun w => w.chars.map Char.toLower

/-- The values of the arguments in order. -/
def values (d : Declared) : List Nat := (d.args.getD []).map Argument.value

end Declared

/-! ## Words -/

theorem inner_of_written {written : List Char} {w : Word}
    (h : written.map Char.toLower = w.chars.map Char.toLower) :
    written ≠ [] ∧ ∀ c ∈ written, isInner c = true := by
  refine ⟨fun hnil => ?_, fun c hc => ?_⟩
  · rw [hnil] at h
    exact w.ne_nil (List.map_eq_nil_iff.1 h.symm)
  · have hlower : c.toLower ∈ w.chars.map Char.toLower := h ▸ List.mem_map_of_mem hc
    obtain ⟨d, hd, hlower⟩ := List.mem_map.1 hlower
    rw [← isInner_toLower, ← hlower, isInner_toLower]
    exact w.inner d hd

theorem mem_spaced {ws : List Word} (h : Spaced ws cs) :
    ∀ c ∈ cs, isBlank c = true ∨ isInner c = true := by
  induction h with
  | nil hgap => exact fun c hc => .inl (hgap c hc)
  | cons hgap hcase _ _ ih =>
    refine List.forall_mem_append.2 ⟨List.forall_mem_append.2 ⟨fun c hc => .inl (hgap c hc), ?_⟩, ih⟩
    exact fun c hc => .inr ((inner_of_written hcase).2 c hc)

/-- The words of a text in lower case are those that it writes. -/
theorem words_of_spaced {ws : List Word} (h : Spaced ws cs) :
    words (cs.map Char.toLower) = ws.map fun w => w.chars.map Char.toLower := by
  rw [Text.words_map _ isBlank_toLower]
  induction h with
  | nil hgap => rw [Text.words_of_blanks hgap]; rfl
  | @cons gap written cs w ws hgap hcase hnext h ih =>
    obtain ⟨hne, hinner⟩ := inner_of_written hcase
    have hword : words written = [written] :=
      Text.words_of_word hne fun c hc => (isInner_iff.1 (hinner c hc)).2.1
    have hbehind : words (written ++ cs) = written :: words cs := by
      by_cases hnil : ws = []
      · subst hnil
        cases h with
        | nil hgap => rw [Text.words_append_blanks hgap, Text.words_of_blanks hgap, hword]
      · obtain ⟨c, hc, hblank⟩ := hnext hnil
        obtain ⟨cs, rfl⟩ := List.head?_eq_some_iff.1 hc
        rw [Text.words_append_cons hblank, Text.words_cons hblank, hword]
        rfl
    rw [List.append_assoc, Text.words_blanks hgap, hbehind, List.map_cons, ih, hcase, List.map_cons]

/-! ## Arguments -/

theorem readCount_toDigits {n : Nat} (h : n < Text.countLimit) :
    Text.readCount (Nat.toDigits 10 n) = some n := by
  have hdigit : ∀ c ∈ Nat.toDigits 10 n, c.isDigit = true := fun c =>
    Nat.isDigit_of_mem_toDigits (by decide) (by decide)
  have hplus : (Nat.toDigits 10 n).head? ≠ some '+' := fun hhead =>
    absurd (hdigit '+' (List.mem_of_mem_head? hhead)) (by decide)
  have hvalue : Text.digitsValue (Nat.toDigits 10 n) = n :=
    Nat.ofDigitChars_toDigits (by decide) (by decide)
  have hread : ¬((Nat.toDigits 10 n).isEmpty || !(Nat.toDigits 10 n).all Char.isDigit) = true := by
    simp [List.all_eq_true.2 hdigit, Nat.toDigits_ne_nil]
  simp only [Text.readCount, if_neg hplus, if_neg hread, hvalue, if_pos h]

theorem argument_of_spaced {a : Argument} (h : Spaced (a.digits :: a.unit) cs) :
    TypeName.argument (cs.map Char.toLower) = some a.value := by
  have hdigits : a.digits.chars.map Char.toLower = Nat.toDigits 10 a.value := by
    refine (List.map_congr_left (g := id) fun c hc => ?_).trans (List.map_id _)
    exact (isInner_of_isDigit (Nat.isDigit_of_mem_toDigits (by decide) (by decide) hc)).2
  rw [TypeName.argument, words_of_spaced h, List.map_cons, List.head?_cons, hdigits]
  exact readCount_toDigits a.value_lt

theorem isMark_of_common (h : isBlank c = true ∨ isInner c = true) : isMark c.toLower = false := by
  rw [isMark_toLower]
  rcases h with hblank | hinner
  · have hnone := forall_blank (p := fun c => !isMark c) (by decide) hblank
    rwa [Bool.not_eq_true'] at hnone
  · exact (isInner_iff.1 hinner).2.2

theorem isMark_of_spaced {ws : List Word} (h : Spaced ws cs) :
    ∀ c ∈ cs.map Char.toLower, isMark c = false := by
  intro c hc
  obtain ⟨d, hd, rfl⟩ := List.mem_map.1 hc
  exact isMark_of_common (mem_spaced h d hd)

theorem arguments_of_listed {args : List Argument} (h : Listed args inside) :
    ((inside.map Char.toLower).splitOnP (· == ',')).filterMap TypeName.argument =
      args.map Argument.value := by
  have hcomma {cs : List Char} {ws : List Word} (h : Spaced ws cs) :
      (cs.map Char.toLower).splitOnP (· == ',') = [cs.map Char.toLower] := by
    refine List.splitOnP_eq_singleton fun c hc => ?_
    have hmark := isMark_of_spaced h c hc
    simp only [isMark, Bool.or_eq_false_iff] at hmark
    exact hmark.1.1
  induction h with
  | @nil gap hgap =>
    have hnone : TypeName.argument (gap.map Char.toLower) = none := by
      rw [TypeName.argument, Text.words_map _ isBlank_toLower, Text.words_of_blanks hgap]
      rfl
    rw [hcomma (.nil hgap), List.filterMap_cons, hnone]
    rfl
  | last h =>
    rw [hcomma h, List.filterMap_cons, argument_of_spaced h]
    rfl
  | cons h _ ih =>
    rw [List.map_append, List.map_cons, List.splitOnP_append_cons _ _ (by decide), hcomma h,
      List.filterMap_append, ih, List.filterMap_cons, argument_of_spaced h]
    rfl

theorem mem_listed {args : List Argument} (h : Listed args inside) :
    ∀ c ∈ inside, (isBlank c = true ∨ isInner c = true) ∨ c = ',' := by
  induction h with
  | nil hgap => exact fun c hc => .inl (.inl (hgap c hc))
  | last h => exact fun c hc => .inl (mem_spaced h c hc)
  | cons h _ ih =>
    exact List.forall_mem_append.2 ⟨fun c hc => .inl (mem_spaced h c hc),
      List.forall_mem_cons.2 ⟨.inr rfl, ih⟩⟩

theorem ne_close_of_listed {args : List Argument} (h : Listed args inside) :
    ∀ c ∈ inside.map Char.toLower, decide (c ≠ ')') = true := by
  intro c hc
  obtain ⟨d, hd, rfl⟩ := List.mem_map.1 hc
  refine decide_eq_true fun hclose => ?_
  rcases mem_listed h d hd with hcommon | rfl
  · have hmark := isMark_of_common hcommon
    rw [hclose] at hmark
    cases hmark
  · revert hclose
    decide

/-! ## The text of a type -/

theorem ne_of_isMark {m : Char} (hm : isMark m = true) (h : ∀ c ∈ cs, isMark c = false) :
    ∀ c ∈ cs, decide (c ≠ m) = true := by
  intro c hc
  refine decide_eq_true ?_
  rintro rfl
  rw [h c hc] at hm
  cases hm

theorem span_ne {m : Char} (h : ∀ c ∈ cs, decide (c ≠ m) = true) (ds : List Char) :
    (cs ++ m :: ds).takeWhile (· ≠ m) = cs ∧ (cs ++ m :: ds).dropWhile (· ≠ m) = m :: ds := by
  rw [List.takeWhile_append_of_pos h, List.dropWhile_append_of_pos h]
  simp

theorem notMem_close (h : ∀ c ∈ cs, isMark c = false) : cs.contains ')' = false := by
  refine eq_false_of_ne_true fun hc => ?_
  exact absurd (h _ (List.contains_iff_mem.1 hc)) (by decide)

theorem parts_of_words (h : ∀ c ∈ cs, isMark c = false) : TypeName.parts cs = none := by
  have hopen := ne_of_isMark (m := '(') (by decide) h
  have htake : cs.takeWhile (· ≠ '(') = cs := List.takeWhile_eq_self_iff.2 hopen
  have hdrop : cs.dropWhile (· ≠ '(') = [] := List.dropWhile_eq_nil_iff.2 hopen
  simp only [TypeName.parts, htake, hdrop, notMem_close h, Bool.false_eq_true, if_false]

theorem parts_of_arguments (h : ∀ c ∈ cs, isMark c = false)
    (hinside : ∀ c ∈ inside, decide (c ≠ ')') = true) (ds : List Char) :
    TypeName.parts (cs ++ '(' :: (inside ++ ')' :: ds)) = some (cs, inside, ds) := by
  obtain ⟨hbefore, hopen⟩ := span_ne (ne_of_isMark (m := '(') (by decide) h) (inside ++ ')' :: ds)
  obtain ⟨hargs, hclose⟩ := span_ne hinside ds
  simp only [TypeName.parts, hbefore, hopen, hargs, hclose, notMem_close h, Bool.false_eq_true,
    if_false]

theorem trim_arguments (cs inside ds : List Char) :
    Text.trim (cs ++ '(' :: (inside ++ ')' :: ds)) =
      Text.trimStart cs ++ '(' :: (inside ++ ')' :: Text.trimEnd ds) := by
  have hstart (rest : List Char) : Text.trimStart (cs ++ '(' :: rest) = Text.trimStart cs ++ '(' :: rest := by
    by_cases hcs : Text.trimStart cs = []
    · have hblank : ∀ c ∈ cs, isBlank c = true := List.dropWhile_eq_nil_iff.1 hcs
      rw [hcs, Text.trimStart, List.dropWhile_append_of_pos hblank]
      rfl
    · exact Text.trimStart_append hcs _
  have hsplit : Text.trimStart cs ++ '(' :: (inside ++ ')' :: ds) =
      (Text.trimStart cs ++ '(' :: inside ++ [')']) ++ ds := by simp
  rw [Text.trim, hstart, hsplit, Text.trimEnd_append]
  · simp
  · intro c hc
    rw [List.getLast?_concat] at hc
    cases hc
    decide

theorem words_lowered (ws : List (List Char)) (h : words (cs.map Char.toLower) = ws) :
    words ((Text.trimStart cs).map Char.toLower) = ws ∧
      words ((Text.trimEnd cs).map Char.toLower) = ws ∧
      words ((Text.trim cs).map Char.toLower) = ws := by
  rw [Text.words_map _ isBlank_toLower] at h
  simp only [Text.words_map _ isBlank_toLower, Text.words_trimStart, Text.words_trimEnd,
    Text.words_trim, h, and_self]

/-- A text is read as the type of its words and arguments, in whatever layout. -/
theorem parse_written {d : Declared} {text : String} (h : d.Written text.toList) :
    TypeName.parse text =
      ⟨TypeName.canonical (String.ofList (Text.joinWith [' '] d.words)), d.values⟩ := by
  have hcommon {c : Char} (hc : isBlank c = true ∨ isInner c = true) :
      isBlank c = true ∨ isForeign c = false := hc.imp_right fun hc => (isInner_iff.1 hc).1
  generalize htext : text.toList = cs at h
  cases h with
  | bare hargs h =>
    have htrim : ∀ c ∈ Text.trim cs, isBlank c = true ∨ isForeign c = false := fun c hc =>
      hcommon (mem_spaced h c ((Text.trim_infix cs).subset hc))
    have hmarks : ∀ c ∈ (Text.trim cs).map Char.toLower, isMark c = false := fun c hc =>
      isMark_of_spaced h c (List.map_subset _ (Text.trim_infix cs).subset hc)
    have hwords := (words_lowered _ (words_of_spaced h)).2.2
    simp only [TypeName.parse, htext, lower_eq_map htrim, parts_of_words hmarks, TypeName.spaced,
      hwords, Declared.values, hargs]
    rfl
  | @applied args cs inside ds hargs hbefore hinside hbehind =>
    have hmem : ∀ c ∈ cs ++ '(' :: (inside ++ ')' :: ds), isBlank c = true ∨ isForeign c = false := by
      refine List.forall_mem_append.2 ⟨fun c hc => hcommon (mem_spaced hbefore c hc),
        List.forall_mem_cons.2 ⟨.inr (by decide), List.forall_mem_append.2 ⟨fun c hc => ?_,
          List.forall_mem_cons.2 ⟨.inr (by decide), fun c hc => hcommon (mem_spaced hbehind c hc)⟩⟩⟩⟩
      rcases mem_listed hinside c hc with hc | rfl
      · exact hcommon hc
      · exact .inr (by decide)
    have htrim := lower_eq_map fun c hc => hmem c ((Text.trim_infix _).subset hc)
    have hsplit : cs ++ '(' :: inside ++ ')' :: ds = cs ++ '(' :: (inside ++ ')' :: ds) := by simp
    have hmarks : ∀ c ∈ (Text.trimStart cs).map Char.toLower, isMark c = false := fun c hc =>
      isMark_of_spaced hbefore c (List.map_subset _ (Text.trimStart_suffix cs).subset hc)
    have hparts := parts_of_arguments hmarks (ne_close_of_listed hinside)
      ((Text.trimEnd ds).map Char.toLower)
    have hlower : Text.lower (Text.trim (cs ++ '(' :: (inside ++ ')' :: ds))) =
        (Text.trimStart cs).map Char.toLower ++ '(' ::
          (inside.map Char.toLower ++ ')' :: (Text.trimEnd ds).map Char.toLower) := by
      rw [htrim, trim_arguments, List.map_append, List.map_cons, List.map_append, List.map_cons]
      rfl
    have hwords : words ((Text.trimStart cs).map Char.toLower ++
        ' ' :: (Text.trimEnd ds).map Char.toLower) = d.words := by
      rw [Text.words_append_cons (by decide), (words_lowered _ (words_of_spaced hbefore)).1,
        (words_lowered _ (words_of_spaced hbehind)).2.1, ← List.map_append]
      rfl
    simp only [TypeName.parse, htext, hsplit, hlower, hparts, TypeName.spaced, hwords,
      arguments_of_listed hinside, Declared.values, hargs]
    rfl

/-- The type that is read from a text is that of the declaration which the text writes: its name is
made of the words in lower case, and its arguments are the numbers in their order. So two texts that
write one declaration have the same length, precision and scale and are both JSON or both not. -/
theorem typeName_of_written (d : Declared) :
    (∀ text : String, d.Written text.toList → TypeName.parse text =
      ⟨TypeName.canonical (String.ofList (Text.joinWith [' '] d.words)), d.values⟩) ∧
    ∀ text text' : String, d.Written text.toList → d.Written text'.toList →
      (TypeName.parse text).length = (TypeName.parse text').length ∧
        (TypeName.parse text).precision = (TypeName.parse text').precision ∧
        (TypeName.parse text).scale = (TypeName.parse text').scale ∧
        (TypeName.parse text).isJson = (TypeName.parse text').isJson := by
  refine ⟨fun text h => parse_written h, fun text text' h h' => ?_⟩
  rw [parse_written h, parse_written h']
  exact ⟨rfl, rfl, rfl, rfl⟩

def digitsUnit : Word := ⟨"digits".toList, by decide, List.all_eq_true.1 (by decide)⟩

/-- A number with sixteen digits, two of them behind the point. -/
def decimal : Declared where
  before := [⟨"NUMERIC".toList, by decide, List.all_eq_true.1 (by decide)⟩]
  before_ne_nil := by simp
  args := some [⟨16, by decide, [digitsUnit]⟩, ⟨2, by decide, []⟩]
  behind := []

theorem written_decimal : decimal.Written "numeric(16 digits,2)".toList := by
  have hnil : Spaced [] [] := .nil (List.forall_mem_nil _)
  have hname : Spaced decimal.before ([] ++ "numeric".toList ++ []) :=
    .cons (List.forall_mem_nil _) (by decide) (by simp) hnil
  have hunit : Spaced [digitsUnit] ([' '] ++ "digits".toList ++ []) :=
    .cons (List.forall_mem_singleton.2 rfl) rfl (by simp) hnil
  have htwo : Listed [⟨2, by decide, []⟩] ([] ++ "2".toList ++ []) :=
    .last (.cons (List.forall_mem_nil _) (by decide) (by simp) hnil)
  have hargs : Listed (decimal.args.getD []) ([] ++ "16".toList ++ " digits".toList ++ ',' :: ['2']) :=
    .cons (.cons (List.forall_mem_nil _) (by decide) (fun _ => ⟨' ', rfl, rfl⟩) hunit) htwo
  exact .applied rfl hname hargs hnil

theorem written_decimal_spread : decimal.Written " Numeric\t( 16\u00a0DIGITS , 2 ) ".toList := by
  have hspace : ∀ c ∈ [' '], isBlank c = true := List.forall_mem_singleton.2 rfl
  have htab : ∀ c ∈ ['\t'], isBlank c = true := List.forall_mem_singleton.2 rfl
  have hfixed : ∀ c ∈ ['\u00a0'], isBlank c = true := List.forall_mem_singleton.2 rfl
  have hname : Spaced decimal.before ([' '] ++ "Numeric".toList ++ ['\t']) :=
    .cons hspace (by decide) (by simp) (.nil htab)
  have hunit : Spaced [digitsUnit] (['\u00a0'] ++ "DIGITS".toList ++ [' ']) :=
    .cons hfixed (by decide) (by simp) (.nil hspace)
  have htwo : Listed [⟨2, by decide, []⟩] ([' '] ++ "2".toList ++ [' ']) :=
    .last (.cons hspace (by decide) (by simp) (.nil hspace))
  have hargs : Listed (decimal.args.getD [])
      ([' '] ++ "16".toList ++ "\u00a0DIGITS ".toList ++ ',' :: " 2 ".toList) :=
    .cons (.cons hspace (by decide) (fun _ => ⟨'\u00a0', rfl, rfl⟩) hunit) htwo
  exact .applied rfl hname hargs (.nil hspace)

theorem typeName_of_written_decimal :
    decimal.Written "numeric(16 digits,2)".toList ∧
      decimal.Written " Numeric\t( 16\u00a0DIGITS , 2 ) ".toList ∧
      TypeName.parse " Numeric\t( 16\u00a0DIGITS , 2 ) " = ⟨"numeric", [16, 2]⟩ ∧
      (TypeName.parse " Numeric\t( 16\u00a0DIGITS , 2 ) ").precision =
        (TypeName.parse "numeric(16 digits,2)").precision := by
  obtain ⟨hparse, hsame⟩ := typeName_of_written decimal
  exact ⟨written_decimal, written_decimal_spread, hparse _ written_decimal_spread,
    (hsame _ _ written_decimal_spread written_decimal).2.1⟩

end JpaScaffold.Sql
