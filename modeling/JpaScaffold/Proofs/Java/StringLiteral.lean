import JpaScaffold.Java.Render
import JpaScaffold.Toml.Scalar
import Mathlib.Data.List.Basic
import Mathlib.Tactic.Common

/-!
# String literals

A Java source is read twice: Unicode escapes are replaced first, which leaves code units, and the
code units of a literal are then read up to the quote that ends it, with its escapes replaced. A text
is written so that it is read back, with quotes, backslashes, line feeds and tabs escaped. A carriage
return is written as it stands, where a literal may hold no end of a line: a text is the value of its
literal exactly if it has no carriage return.
-/
namespace JpaScaffold.Java

/-! ## Machines -/

section Machine

variable {σ α β : Type} {step : σ → α → Option (σ × List Nat)} {q q' : σ} {as bs : List α}
  {out : List Nat}

/-- Where a machine stops that reads symbols one by one, and the code units that it writes. -/
def run (step : σ → α → Option (σ × List Nat)) : σ → List α → Option (σ × List Nat)
  | q, [] => some (q, [])
  | q, a :: as => (step q a).bind fun next =>
      (run step next.1 as).map fun stop => (stop.1, next.2 ++ stop.2)

theorem run_cons {a : α} (h : step q a = some (q', out)) :
    run step q (a :: as) = (run step q' as).map fun stop => (stop.1, out ++ stop.2) := by
  rw [run, h, Option.bind_some]

theorem run_append (h : run step q as = some (q', out)) :
    run step q (as ++ bs) = (run step q' bs).map fun stop => (stop.1, out ++ stop.2) := by
  induction as generalizing q out with
  | nil =>
    cases h
    simp
  | cons a as ih =>
    obtain ⟨⟨q₁, out₁⟩, hstep, h⟩ := Option.bind_eq_some_iff.1 h
    obtain ⟨⟨q₂, out₂⟩, hrun, h⟩ := Option.map_eq_some_iff.1 h
    cases h
    rw [List.cons_append, run_cons hstep, ih hrun, Option.map_map]
    exact congrArg (Option.map · _) (funext fun stop => by simp)

/-- Words from which a machine comes back to where it was are read one after the other. -/
theorem run_flatMap {word : β → List α} {written : β → List Nat} {l : List β}
    (h : ∀ b ∈ l, run step q (word b) = some (q, written b)) :
    run step q (l.flatMap word) = some (q, l.flatMap written) := by
  induction l with
  | nil => rfl
  | cons b l ih =>
    obtain ⟨hb, hl⟩ := List.forall_mem_cons.1 h
    rw [List.flatMap_cons, run_append hb, ih hl, List.flatMap_cons]
    rfl

end Machine

/-! ## Reading a literal -/

def codeUnits (c : Char) : List Nat :=
  if c.toNat < 0x10000 then [c.toNat]
  else [0xD800 + (c.toNat - 0x10000) / 0x400, 0xDC00 + (c.toNat - 0x10000) % 0x400]

/-- Where the reader of a source stands: behind a backslash that may start a Unicode escape, or in an
escape, in front of a number of digits and behind those of this value. -/
inductive SourceState where
  | plain
  | backslash
  | marker
  | digits (more value : Nat)
  deriving DecidableEq

/-- A backslash starts a Unicode escape if a `u` follows. Of two backslashes, none does. -/
def sourceStep : SourceState → Char → Option (SourceState × List Nat)
  | .plain, c => if c = '\\' then some (.backslash, []) else some (.plain, codeUnits c)
  | .backslash, c =>
    if c = 'u' then some (.marker, []) else some (.plain, '\\'.toNat :: codeUnits c)
  | .marker, c =>
    if c = 'u' then some (.marker, [])
    else (Toml.hexDigit? c).map fun digit => (.digits 2 digit, [])
  | .digits more value, c => (Toml.hexDigit? c).map fun digit =>
      match more with
      | 0 => (.plain, [16 * value + digit])
      | more + 1 => (.digits more (16 * value + digit), [])

/-- The code units of a source that ends where its reader stands. -/
def SourceState.rest : SourceState → Option (List Nat)
  | plain => some []
  | backslash => some ['\\'.toNat]
  | _ => none

def sourceUnits (cs : List Char) : Option (List Nat) :=
  (run sourceStep .plain cs).bind fun stop => stop.1.rest.map (stop.2 ++ ·)

/-- Where the reader of a literal stands: in an escape by a number, it may take some more digits and
has read those of this value. -/
inductive LiteralState where
  | start
  | body
  | escape
  | number (more value : Nat)
  | closed
  deriving DecidableEq

/-- The code unit that a letter or sign behind a backslash stands for. -/
def escapeUnit (u : Nat) : Option Nat :=
  if u = 'b'.toNat then some 0x08
  else if u = 't'.toNat then some '\t'.toNat
  else if u = 'n'.toNat then some '\n'.toNat
  else if u = 'f'.toNat then some 0x0c
  else if u = 'r'.toNat then some '\r'.toNat
  else if u = 's'.toNat then some ' '.toNat
  else if u = '"'.toNat ∨ u = '\''.toNat ∨ u = '\\'.toNat then some u
  else none

def octalDigit? (u : Nat) : Option Nat :=
  if '0'.toNat ≤ u ∧ u ≤ '7'.toNat then some (u - '0'.toNat) else none

def bodyStep (terminators : List Nat) (u : Nat) : Option (LiteralState × List Nat) :=
  if u = '"'.toNat then some (.closed, [])
  else if u = '\\'.toNat then some (.escape, [])
  else if u ∈ terminators then none
  else some (.body, [u])

/-- A code unit of a literal that may not hold the terminators. Up to three digits are an escape, the
first of three being less than four. -/
def literalStep (terminators : List Nat) : LiteralState → Nat → Option (LiteralState × List Nat)
  | .start, u => if u = '"'.toNat then some (.body, []) else none
  | .body, u => bodyStep terminators u
  | .escape, u =>
    match octalDigit? u with
    | some digit => some (.number (if digit < 4 then 2 else 1) digit, [])
    | none => (escapeUnit u).map fun value => (.body, [value])
  | .number more value, u =>
    match octalDigit? u, more with
    | some digit, more + 1 => some (.number more (8 * value + digit), [])
    | _, _ => (bodyStep terminators u).map fun next => (next.1, value :: next.2)
  | .closed, _ => none

/-- The value of a text that is one literal from its first to its last character, if a literal may not
hold the terminators. -/
def literalValue? (terminators : List Nat) (text : String) : Option (List Nat) :=
  (sourceUnits text.toList).bind fun units =>
    (run (literalStep terminators) .start units).bind fun stop =>
      if stop.1 = .closed then some stop.2 else none

example : literalValue? [] "\"a\\\\u0041\\u0041\\1018\"" =
    some [97, 92, 117, 48, 48, 52, 49, 65, 65, 56] := by decide

/-- The code units that end a line. -/
def lineTerminators : List Nat := ['\n'.toNat, '\r'.toNat]

/-- The code units of a text in UTF-16. -/
def utf16 (s : String) : List Nat := s.toList.flatMap codeUnits

/-! ## What a text is written as -/

variable {c : Char} {s : String} {terminators us : List Nat}

theorem ne_of_mem_codeUnits {d : Char} {u : Nat} (h : u ∈ codeUnits c) (hne : c ≠ d)
    (hd : d.toNat < 0xD800) : u ≠ d.toNat := by
  unfold codeUnits at h
  split at h
  · rw [List.mem_singleton.1 h]
    exact fun hsame => hne (Char.toNat_inj.1 hsame)
  · simp only [List.mem_cons, List.not_mem_nil, or_false] at h
    omega

/-- The code units of a character are not the front of those of another one: a character has a code
unit that is no surrogate, or two surrogates. -/
theorem codeUnits_append_inj {d : Char} {vs : List Nat} (h : codeUnits c ++ us = codeUnits d ++ vs) :
    c = d ∧ us = vs := by
  have hvalid (c : Char) : c.toNat < 0xD800 ∨ 0xDFFF < c.toNat ∧ c.toNat < 0x110000 := c.valid
  have hc := hvalid c
  have hd := hvalid d
  rw [← Char.toNat_inj]
  unfold codeUnits at h
  split at h <;> split at h
  · simpa using h
  · obtain ⟨hfirst, -⟩ := List.cons.inj h
    omega
  · obtain ⟨hfirst, -⟩ := List.cons.inj h
    omega
  · obtain ⟨hfirst, h⟩ := List.cons.inj h
    obtain ⟨hsecond, h⟩ := List.cons.inj h
    exact ⟨by omega, h⟩

theorem utf16_injective : Function.Injective utf16 := by
  have hchars (cs ds : List Char) (h : cs.flatMap codeUnits = ds.flatMap codeUnits) : cs = ds := by
    have hne (c : Char) (us : List Nat) : codeUnits c ++ us ≠ [] := by
      unfold codeUnits
      split <;> simp
    induction cs generalizing ds with
    | nil =>
      cases ds with
      | nil => rfl
      | cons d ds => exact absurd h.symm (hne d _)
    | cons c cs ih =>
      cases ds with
      | nil => exact absurd h (hne c _)
      | cons d ds =>
        obtain ⟨rfl, hrest⟩ := codeUnits_append_inj h
        rw [ih ds hrest]
  exact fun s t h => String.toList_inj.1 (hchars _ _ h)

theorem run_escapedChar_source (c : Char) :
    run sourceStep .plain (escapedChar c) = some (.plain, (escapedChar c).flatMap codeUnits) := by
  unfold escapedChar
  split
  · decide
  · decide
  · decide
  · decide
  · next hquote hslash hfeed htab =>
    have hstep : sourceStep .plain c = some (.plain, codeUnits c) := if_neg hslash
    rw [run_cons hstep]
    simp [run]

theorem run_units (h : ∀ u ∈ us, u ≠ '"'.toNat ∧ u ≠ '\\'.toNat ∧ u ∉ terminators) :
    run (literalStep terminators) .body us = some (.body, us) := by
  induction us with
  | nil => rfl
  | cons u us ih =>
    obtain ⟨⟨hquote, hslash, hline⟩, hus⟩ := List.forall_mem_cons.1 h
    have hstep : literalStep terminators .body u = some (.body, [u]) := by
      rw [literalStep, bodyStep, if_neg hquote, if_neg hslash, if_neg hline]
    rw [run_cons hstep, ih hus]
    rfl

/-- An escaped character stands for itself if it is no carriage return that may not be written. -/
theorem run_escapedChar_literal (hline : terminators ⊆ lineTerminators)
    (hc : c = '\r' → '\r'.toNat ∉ terminators) :
    run (literalStep terminators) .body ((escapedChar c).flatMap codeUnits) =
      some (.body, codeUnits c) := by
  unfold escapedChar
  split
  · rfl
  · rfl
  · rfl
  · rfl
  · next hquote hslash hfeed htab =>
    rw [List.flatMap_singleton]
    refine run_units fun u hu => ⟨ne_of_mem_codeUnits hu hquote (by decide),
      ne_of_mem_codeUnits hu hslash (by decide), fun hin => ?_⟩
    rcases List.mem_pair.1 (hline hin) with rfl | rfl
    · exact ne_of_mem_codeUnits hu hfeed (by decide) rfl
    · by_cases hreturn : c = '\r'
      · exact hc hreturn hin
      · exact ne_of_mem_codeUnits hu hreturn (by decide) rfl

theorem sourceUnits_string (s : String) :
    sourceUnits (AttributeValue.string s).text.toList =
      some ('"'.toNat :: s.toList.flatMap (fun c => (escapedChar c).flatMap codeUnits) ++
        ['"'.toNat]) := by
  have htext : (AttributeValue.string s).text.toList =
      '"' :: (s.toList.flatMap escapedChar ++ ['"']) := by
    simp [AttributeValue.text, escaped, String.toList_append]
  have hquote : sourceStep .plain '"' = some (.plain, ['"'.toNat]) := rfl
  have hinner : run sourceStep .plain (s.toList.flatMap escapedChar) =
      some (.plain, s.toList.flatMap fun c => (escapedChar c).flatMap codeUnits) :=
    run_flatMap fun c _ => run_escapedChar_source c
  rw [sourceUnits, htext, run_cons hquote, run_append hinner, run_cons hquote]
  simp [run, SourceState.rest]

theorem literalValue_string_eq :
    literalValue? terminators (AttributeValue.string s).text =
      (run (literalStep terminators) .body
        (s.toList.flatMap (fun c => (escapedChar c).flatMap codeUnits) ++ ['"'.toNat])).bind
          fun stop => if stop.1 = .closed then some stop.2 else none := by
  have hquote : literalStep terminators .start '"'.toNat = some (.body, []) := rfl
  rw [literalValue?, sourceUnits_string, Option.bind_some, List.cons_append, run_cons hquote]
  simp

/-- A text is the value of its literal, in which no line ends, if the text holds no carriage return or
such a one may stand in a literal. -/
theorem literalValue_of_subset (hline : terminators ⊆ lineTerminators)
    (hs : '\r' ∈ s.toList → '\r'.toNat ∉ terminators) :
    literalValue? terminators (AttributeValue.string s).text = some (utf16 s) := by
  have hquote : literalStep terminators .body '"'.toNat = some (.closed, []) := rfl
  have hinner : run (literalStep terminators) .body
      (s.toList.flatMap fun c => (escapedChar c).flatMap codeUnits) = some (.body, utf16 s) :=
    run_flatMap fun c hc => run_escapedChar_literal hline fun hreturn => hs (hreturn ▸ hc)
  rw [literalValue_string_eq, run_append hinner, run_cons hquote]
  simp [run]

theorem stringLiteral_injective {t : String}
    (h : (AttributeValue.string s).text = (AttributeValue.string t).text) : s = t := by
  have hread (s : String) := literalValue_of_subset (s := s) (List.nil_subset lineTerminators)
    fun _ => List.not_mem_nil
  have hs := hread s
  rw [h, hread t] at hs
  exact utf16_injective (Option.some.inj hs.symm)

theorem literalValue_of_return (hs : '\r' ∈ s.toList) :
    literalValue? lineTerminators (AttributeValue.string s).text = none := by
  obtain ⟨before, after, hsplit, hbefore⟩ := List.eq_append_cons_of_mem hs
  have hinner : run (literalStep lineTerminators) .body
      (before.flatMap fun c => (escapedChar c).flatMap codeUnits) =
        some (.body, before.flatMap codeUnits) :=
    run_flatMap fun c hc => run_escapedChar_literal (List.Subset.refl _) fun hreturn =>
      absurd (hreturn ▸ hc) hbefore
  have hreturn : literalStep lineTerminators .body '\r'.toNat = none := rfl
  have hunits : (escapedChar '\r').flatMap codeUnits = ['\r'.toNat] := rfl
  rw [literalValue_string_eq, hsplit, List.flatMap_append, List.append_assoc, run_append hinner,
    List.flatMap_cons, hunits, List.append_assoc, List.singleton_append, run, hreturn]
  rfl

/-- The literal of a text is read back as the text, and no line feed stands in it. It is a literal, in
which no line ends, if and only if the text has no carriage return. -/
theorem value_of_stringLiteral (s : String) :
    literalValue? ['\n'.toNat] (AttributeValue.string s).text = some (utf16 s) ∧
      literalValue? lineTerminators (AttributeValue.string s).text =
        if '\r' ∈ s.toList then none else some (utf16 s) := by
  constructor
  · exact literalValue_of_subset (by simp [lineTerminators]) fun _ => by decide
  · split
    · next hs => exact literalValue_of_return hs
    · next hs =>
      exact literalValue_of_subset (List.Subset.refl _) fun hin => absurd hin hs

end JpaScaffold.Java
