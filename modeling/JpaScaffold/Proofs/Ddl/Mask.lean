import JpaScaffold.Ddl.Marked
import JpaScaffold.Proofs.Text.Utf8

/-!
# The mask of the bytes

The scan that marks code can read a text byte by byte, with one byte of look-ahead: every byte that it
compares is one of ASCII, and the bytes of other characters are none of them. The mask of the bytes is
that of the characters, each repeated for its bytes.
-/
namespace JpaScaffold.Ddl

open Text (asciiByte isForeign utf8)

/-- The marks of the bytes of a text, for a scan that stands in the given region. -/
def byteMask : Region → List UInt8 → List Bool
  | _, [] => []
  | .code, b :: rest =>
    if b = asciiByte '\'' then false :: byteMask .single rest
    else if b = asciiByte '"' then false :: byteMask .double rest
    else if b = asciiByte '-' ∧ rest.head? = some (asciiByte '-') then false :: byteMask .line rest
    else if b = asciiByte '/' ∧ rest.head? = some (asciiByte '*') then false :: byteMask .block rest
    else true :: byteMask .code rest
  | .single, [_] => [false]
  | .single, b :: next :: rest =>
    if b = asciiByte '\'' then
      if next = asciiByte '\'' then false :: false :: byteMask .single rest
      else false :: byteMask .code (next :: rest)
    else false :: byteMask .single (next :: rest)
  | .double, b :: rest =>
    if b = asciiByte '"' then false :: byteMask .code rest else false :: byteMask .double rest
  | .line, b :: rest =>
    if b = asciiByte '\n' then true :: byteMask .code rest else false :: byteMask .line rest
  | .block, [_] => [false]
  | .block, b :: next :: rest =>
    if b = asciiByte '*' ∧ next = asciiByte '/' then false :: false :: byteMask .code rest
    else false :: byteMask .block (next :: rest)

/-- The marks of the bytes of a text: which of them are code. -/
def codeMask (bytes : List UInt8) : List Bool := byteMask .code bytes

/-- The marks of characters, each for all bytes of its character. -/
def Marked.byteMarks (m : Marked) : List Bool := List.replicate m.char.utf8Size m.isCode

def Region.isCode : Region → Bool
  | .code => true
  | _ => false

/-- A scan that stands in a region stays there at a character, or at a byte, in front of the next
one. -/
def Passes {α : Type} (as : Char → α) : Region → α → Option α → Prop
  | .code, c, next =>
    c ≠ as '\'' ∧ c ≠ as '"' ∧ ¬(c = as '-' ∧ next = some (as '-')) ∧
      ¬(c = as '/' ∧ next = some (as '*'))
  | .single, c, _ => c ≠ as '\''
  | .double, c, _ => c ≠ as '"'
  | .line, c, _ => c ≠ as '\n'
  | .block, c, next => ¬(c = as '*' ∧ next = some (as '/'))

variable {r : Region} {b : UInt8} {bs : List UInt8} {c d : Char} {cs : List Char}

theorem byteMask_of_passes (h : Passes asciiByte r b bs.head?) :
    byteMask r (b :: bs) = r.isCode :: byteMask r bs := by
  cases r with
  | code =>
    obtain ⟨hsingle, hdouble, hline, hblock⟩ := h
    rw [byteMask, if_neg hsingle, if_neg hdouble, if_neg hline, if_neg hblock]
    rfl
  | single =>
    cases bs with
    | nil => rfl
    | cons next bs =>
      rw [byteMask, if_neg h]
      rfl
  | double =>
    rw [byteMask, if_neg h]
    rfl
  | line =>
    rw [byteMask, if_neg h]
    rfl
  | block =>
    cases bs with
    | nil => rfl
    | cons next bs =>
      rw [byteMask, if_neg fun hclose => h ⟨hclose.1, congrArg some hclose.2⟩]
      rfl

theorem passes_of_foreign (h : 128 ≤ b) (next : Option UInt8) : Passes asciiByte r b next := by
  have hne {d : Char} (hd : isForeign d = false) (hsmall : d.toNat < 128) : b ≠ asciiByte d := by
    rintro rfl
    rw [UInt8.le_iff_toNat_le, Text.toNat_asciiByte hd] at h
    exact absurd h (by simpa using hsmall)
  cases r with
  | code =>
    exact ⟨hne (by decide) (by decide), hne (by decide) (by decide),
      fun h => hne (by decide) (by decide) h.1, fun h => hne (by decide) (by decide) h.1⟩
  | single => exact hne (by decide) (by decide)
  | double => exact hne (by decide) (by decide)
  | line => exact hne (by decide) (by decide)
  | block => exact fun h => hne (by decide) (by decide) h.1

theorem byteMask_of_foreign (h : ∀ b ∈ bs, 128 ≤ b) (more : List UInt8) :
    byteMask r (bs ++ more) = List.replicate bs.length r.isCode ++ byteMask r more := by
  induction bs with
  | nil => rfl
  | cons b bs ih =>
    obtain ⟨hb, hbs⟩ := List.forall_mem_cons.1 h
    rw [List.cons_append, byteMask_of_passes (passes_of_foreign hb _), ih hbs, List.length_cons,
      List.replicate_succ, List.cons_append]

theorem asciiByte_inj (hc : isForeign c = false) (hd : isForeign d = false) :
    asciiByte c = asciiByte d ↔ c = d := by
  constructor
  · intro h
    have hnat := congrArg UInt8.toNat h
    rw [Text.toNat_asciiByte hc, Text.toNat_asciiByte hd] at hnat
    exact Char.toNat_inj.1 hnat
  · rintro rfl
    rfl

/-- A text starts with the byte of an ASCII character where it starts with the character. -/
theorem head?_utf8 (hd : isForeign d = false) :
    (utf8 cs).head? = some (asciiByte d) ↔ cs.head? = some d := by
  cases cs with
  | nil => simp
  | cons c cs =>
    rw [Text.utf8_cons, List.head?_cons, Option.some.injEq]
    cases hc : isForeign c with
    | false =>
      rw [Text.utf8EncodeChar_ascii hc, List.cons_append, List.head?_cons, Option.some.injEq,
        asciiByte_inj hc hd]
    | true =>
      obtain ⟨first, tail, hencode, hfirst, -⟩ := Text.utf8EncodeChar_foreign hc
      have hne : first ≠ asciiByte d := by
        rintro rfl
        rw [UInt8.le_iff_toNat_le, Text.toNat_asciiByte hd] at hfirst
        have hd' : 128 ≤ d.toNat := le_trans (by decide) hfirst
        rw [Text.isForeign_iff.2 hd'] at hd
        cases hd
      rw [hencode, List.cons_append, List.head?_cons, Option.some.injEq]
      refine iff_of_false hne ?_
      rintro rfl
      rw [hd] at hc
      cases hc

/-- The bytes of a character at which a scan stays in its region have the mark of the region. -/
theorem byteMask_char (h : Passes id r c cs.head?) :
    byteMask r (utf8 (c :: cs)) = List.replicate c.utf8Size r.isCode ++ byteMask r (utf8 cs) := by
  rw [Text.utf8_cons, ← String.length_utf8EncodeChar c]
  cases hc : isForeign c with
  | true => exact byteMask_of_foreign (fun b hb => Text.ascii_lt_of_mem hc hb) _
  | false =>
    rw [Text.utf8EncodeChar_ascii hc]
    refine byteMask_of_passes ?_
    cases r <;> simpa [Passes, asciiByte_inj hc, head?_utf8, Text.isForeign] using h

theorem utf8_ascii (hc : isForeign c = false) (cs : List Char) :
    utf8 (c :: cs) = asciiByte c :: utf8 cs := by
  rw [Text.utf8_cons, Text.utf8EncodeChar_ascii hc]
  rfl

theorem flatMap_byteMarks (hc : isForeign c = false) (isCode : Bool) (ms : List Marked) :
    (⟨c, isCode⟩ :: ms).flatMap Marked.byteMarks = isCode :: ms.flatMap Marked.byteMarks := by
  rw [List.flatMap_cons, Marked.byteMarks, ← String.length_utf8EncodeChar, Text.utf8EncodeChar_ascii hc]
  rfl

theorem head?_ne {d : Char} (h : ∀ rest, cs ≠ d :: rest) : cs.head? ≠ some d := by
  cases cs with
  | nil => rintro ⟨⟩
  | cons c cs =>
    rintro hc
    cases hc
    exact h cs rfl

/-- The mask of the bytes of a text is that of its characters. -/
theorem byteMask_utf8 (r : Region) (cs : List Char) :
    byteMask r (utf8 cs) = (mark r cs).flatMap Marked.byteMarks := by
  -- The cases in which a scan changes its region, or looks ahead, are about ASCII characters; in the
  -- others the scan passes a character of any kind.
  fun_induction mark r cs with
  | case1 r => cases r <;> rfl
  | case2 rest ih =>
    rw [utf8_ascii rfl, byteMask, if_pos rfl, flatMap_byteMarks rfl, ih]
  | case3 rest ih =>
    rw [utf8_ascii rfl, byteMask, if_neg (by decide), if_pos rfl, flatMap_byteMarks rfl, ih]
  | case4 rest ih =>
    rw [utf8_ascii rfl, utf8_ascii rfl, byteMask, if_neg (by decide), if_neg (by decide),
      if_pos ⟨rfl, rfl⟩, byteMask, if_neg (by decide), flatMap_byteMarks rfl, flatMap_byteMarks rfl, ih]
  | case5 rest ih =>
    rw [utf8_ascii rfl, utf8_ascii rfl, utf8_ascii rfl, byteMask, if_neg (by decide),
      if_neg (by decide), if_neg fun h => absurd h.1 (by decide), if_pos ⟨rfl, rfl⟩, byteMask, if_pos ⟨rfl, rfl⟩,
      flatMap_byteMarks rfl, flatMap_byteMarks rfl, flatMap_byteMarks rfl, ih]
  | case6 rest hopen ih =>
    have hpass : Passes id .block '*' rest.head? := fun h => head?_ne hopen h.2
    rw [utf8_ascii rfl, byteMask, if_neg (by decide), if_neg (by decide),
      if_neg fun h => absurd h.1 (by decide), if_pos ⟨rfl, by rw [utf8_ascii rfl]; rfl⟩, byteMask_char hpass, flatMap_byteMarks rfl, ih]
    rfl
  | case7 c rest hsingle hdouble hline _ hblock ih =>
    have hpass : Passes id .code c rest.head? :=
      ⟨hsingle, hdouble, fun h => head?_ne (hline · h.1) h.2, fun h => head?_ne (hblock · h.1) h.2⟩
    rw [byteMask_char hpass, ih]
    rfl
  | case8 rest ih =>
    rw [utf8_ascii rfl, utf8_ascii rfl, byteMask, if_pos rfl, if_pos rfl, flatMap_byteMarks rfl,
      flatMap_byteMarks rfl, ih]
  | case9 rest hdoubled ih =>
    have hnext : (utf8 rest).head? ≠ some (asciiByte '\'') :=
      (head?_utf8 rfl).not.2 (head?_ne hdoubled)
    rw [utf8_ascii rfl, flatMap_byteMarks rfl, ← ih]
    cases hrest : utf8 rest with
    | nil => rfl
    | cons next more =>
      rw [hrest] at hnext
      have hends {marks : List Bool} (h : byteMask .code (next :: more) = marks) :
          byteMask .single (asciiByte '\'' :: next :: more) = false :: marks := by
        rw [byteMask, if_pos rfl, if_neg fun h => hnext (congrArg some h), h]
      exact hends rfl
  | case10 c rest _ hquote ih =>
    have hpass : Passes id .single c rest.head? := hquote
    rw [byteMask_char hpass, ih]
    rfl
  | case11 rest ih => rw [utf8_ascii rfl, byteMask, if_pos rfl, flatMap_byteMarks rfl, ih]
  | case12 c rest hquote ih =>
    have hpass : Passes id .double c rest.head? := hquote
    rw [byteMask_char hpass, ih]
    rfl
  | case13 rest ih => rw [utf8_ascii rfl, byteMask, if_pos rfl, flatMap_byteMarks rfl, ih]
  | case14 c rest hfeed ih =>
    have hpass : Passes id .line c rest.head? := hfeed
    rw [byteMask_char hpass, ih]
    rfl
  | case15 rest ih =>
    rw [utf8_ascii rfl, utf8_ascii rfl, byteMask, if_pos ⟨rfl, rfl⟩, flatMap_byteMarks rfl,
      flatMap_byteMarks rfl, ih]
  | case16 c rest hclose ih =>
    have hpass : Passes id .block c rest.head? := fun h => head?_ne (hclose · h.1) h.2
    rw [byteMask_char hpass, ih]
    rfl

end JpaScaffold.Ddl
