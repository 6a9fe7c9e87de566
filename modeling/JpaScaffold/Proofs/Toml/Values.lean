import JpaScaffold.Proofs.Toml.Strings
import Mathlib.Data.List.TakeWhile

/-!
# Values that are read back

A value that is printed is read back in front of the end of a line, of a comma and of the bracket
that closes an array: these are the places where the printer puts values.
-/
namespace JpaScaffold.Toml

variable {c : Char} {cs rest : List Char} {n : Nat}

/-- The end of a line, a comma or a closing bracket stands here. -/
def PastValue (cs : List Char) : Prop :=
  ∃ c rest, cs = c :: rest ∧ (c = '\n' ∨ c = ',' ∨ c = ']')

theorem PastValue.pastQuotes (h : PastValue rest) : PastQuotes rest := by
  obtain ⟨c, rest, rfl, hc⟩ := h
  rcases hc with rfl | rfl | rfl <;> exact ⟨by simp, by simp⟩

/-! ## Whole numbers -/

theorem dateTail_of_digits (h : ∀ c ∈ cs, c.isDigit = true) : dateTail cs = none := by
  unfold dateTail
  cases hf : fixed 4 cs with
  | none => rfl
  | some p =>
    obtain ⟨year, left⟩ := p
    have hleft : ∀ c ∈ left, c.isDigit = true := by
      simp only [fixed] at hf
      split at hf
      · cases hf
        exact fun c hc => h c (List.mem_of_mem_drop hc)
      · cases hf
    simp only [bind, Option.bind]
    split
    · exact absurd (hleft '-' List.mem_cons_self) (by decide)
    · rfl

theorem timeTail_of_digits (h : ∀ c ∈ cs, c.isDigit = true) : timeTail cs = none := by
  unfold timeTail
  cases hf : fixed 2 cs with
  | none => rfl
  | some p =>
    obtain ⟨hour, left⟩ := p
    have hleft : ∀ c ∈ left, c.isDigit = true := by
      simp only [fixed] at hf
      split at hf
      · cases hf
        exact fun c hc => h c (List.mem_of_mem_drop hc)
      · cases hf
    simp only [bind, Option.bind]
    split
    · exact absurd (hleft ':' List.mem_cons_self) (by decide)
    · rfl

theorem isDate_of_digits (h : ∀ c ∈ cs, c.isDigit = true) : isDate cs = false := by
  simp [isDate, dateTail_of_digits h, timeTail_of_digits h]

theorem signed_of_digits (h : ∀ c ∈ cs, c.isDigit = true) : signed cs = (1, cs) := by
  unfold signed
  split
  · exact absurd (h '+' List.mem_cons_self) (by decide)
  · exact absurd (h '-' List.mem_cons_self) (by decide)
  · rfl

theorem ne_of_isDigit {d : Char} (h : c.isDigit = true) (hd : d.isDigit = false) : c ≠ d := by
  rintro rfl
  rw [h] at hd
  cases hd

theorem isFloat_of_digits (h : ∀ c ∈ cs, c.isDigit = true) : isFloat cs = false := by
  have hall {p : Char → Bool} (hp : ∀ c, c.isDigit = true → p c = true) :
      cs.takeWhile p = cs ∧ cs.dropWhile p = [] := by
    refine ⟨List.takeWhile_eq_self_iff.2 fun c hc => hp c (h c hc), ?_⟩
    exact List.dropWhile_eq_nil_iff.2 fun c hc => hp c (h c hc)
  have hexp := hall (p := fun c => c != 'e' && c != 'E') fun c hc => by
    simp [ne_of_isDigit hc (d := 'e') (by decide), ne_of_isDigit hc (d := 'E') (by decide)]
  have hpoint := hall (p := fun c => c != '.') fun c hc => by
    simp [ne_of_isDigit hc (d := '.') (by decide)]
  have hname {d : Char} {ds : List Char} (hd : d.isDigit = false) : cs ≠ d :: ds := by
    rintro rfl
    rw [h d List.mem_cons_self] at hd
    cases hd
  simp only [isFloat, signed_of_digits h, hexp.1, hexp.2, hpoint.1, hpoint.2]
  simp [hname (d := 'i') (by decide), hname (d := 'n') (by decide)]

theorem toNat_of_isDigit (h : c.isDigit = true) : 48 ≤ c.toNat ∧ c.toNat ≤ 57 := by
  simp only [Char.isDigit, Bool.and_eq_true, decide_eq_true_eq, UInt32.le_iff_toNat_le] at h
  exact h

theorem digits_of_digits (hne : cs ≠ []) (h : ∀ c ∈ cs, c.isDigit = true) :
    digits 10 cs = some (cs.map fun c => c.toNat - 48) := by
  have hgroups : cs.splitOnP (· == '_') = [cs] := List.splitOnP_eq_singleton fun c hc => by
    simp [ne_of_isDigit (h c hc) (d := '_') (by decide)]
  have hdigit : ∀ c ∈ cs, (hexDigit? c).filter (· < 10) = some (c.toNat - 48) := by
    intro c hc
    obtain ⟨-, hle⟩ := toNat_of_isDigit (h c hc)
    rw [hexDigit?, if_pos (h c hc), Option.filter_some, if_pos]
    simp only [decide_eq_true_eq]
    omega
  have hmap : cs.mapM (fun c => (hexDigit? c).filter (· < 10)) =
      some (cs.map fun c => c.toNat - 48) := by
    clear hgroups hne h
    induction cs with
    | nil => rfl
    | cons c cs ih =>
      obtain ⟨hc, hcs⟩ := List.forall_mem_cons.1 hdigit
      rw [List.mapM_cons, hc, ih hcs]
      rfl
  simp only [digits, hgroups, List.any_cons, List.any_nil, Bool.or_false, List.isEmpty_iff, hne,
    if_false, List.flatten_cons, List.flatten_nil, List.append_nil, hmap]

/-- The digits of a number do not start with zero, unless zero is all of them. -/
theorem toDigits_head (n : Nat) :
    (Nat.toDigits 10 n).head? = some '0' → (Nat.toDigits 10 n).length = 1 := by
  induction n using Nat.strong_induction_on with
  | _ n ih =>
  by_cases hlt : n < 10
  · intro _
    rw [Nat.toDigits_of_lt_base hlt]
    rfl
  · have hge : 10 ≤ n := Nat.not_lt.1 hlt
    rw [Nat.toDigits_of_base_le (by decide) hge, List.head?_append_of_ne_nil _ Nat.toDigits_ne_nil]
    intro hzero
    -- the digits in front would be the number zero
    have hone := ih (n / 10) (by omega) hzero
    obtain ⟨d, hd⟩ := List.length_eq_one_iff.1 hone
    rw [hd] at hzero
    obtain rfl : d = '0' := by simpa using hzero
    have hvalue := Nat.ofDigitChars_toDigits (b := 10) (n := n / 10) (by decide) (by decide)
    rw [hd] at hvalue
    have hpos : 0 < n / 10 := Nat.div_pos hge (by decide)
    rw [← hvalue] at hpos
    exact absurd hpos (by decide)

theorem decimal_toDigits (n : Nat) : decimal (Nat.toDigits 10 n) = some n := by
  have hdigit : ∀ c ∈ Nat.toDigits 10 n, c.isDigit = true := fun c =>
    Nat.isDigit_of_mem_toDigits (by decide) (by decide)
  have hvalue : valueOf 10 ((Nat.toDigits 10 n).map fun c => c.toNat - 48) = n := by
    rw [valueOf, List.foldl_map]
    exact Nat.ofDigitChars_toDigits (by decide) (by decide)
  rw [decimal, digits_of_digits Nat.toDigits_ne_nil hdigit, Option.bind_some, if_neg, hvalue]
  rintro ⟨hzero, hlen⟩
  rw [List.length_map] at hlen
  refine hlen (toDigits_head n ?_)
  cases hd : Nat.toDigits 10 n with
  | nil => exact absurd hd Nat.toDigits_ne_nil
  | cons d ds =>
    rw [hd] at hzero hdigit
    obtain ⟨hge, -⟩ := toNat_of_isDigit (hdigit d List.mem_cons_self)
    have hd0 : d.toNat - 48 = 0 := by simpa using hzero
    have hd' : d = '0' := Char.toNat_inj.1 (show d.toNat = 48 by omega)
    rw [hd']
    rfl

theorem integer_toDigits (h : n < integerLimit) : integer (Nat.toDigits 10 n) = some (n : Int) := by
  have hdigit : ∀ c ∈ Nat.toDigits 10 n, c.isDigit = true := fun c =>
    Nat.isDigit_of_mem_toDigits (by decide) (by decide)
  unfold integer
  split
  · next he => exact absurd (hdigit 'x' (by rw [he]; simp)) (by decide)
  · next he => exact absurd (hdigit 'o' (by rw [he]; simp)) (by decide)
  · next he => exact absurd (hdigit 'b' (by rw [he]; simp)) (by decide)
  · simp [signed_of_digits hdigit, decimal_toDigits, h]

theorem scalarOf_toDigits (h : n < integerLimit) :
    scalarOf (Nat.toDigits 10 n) = some (.integer n) := by
  have hdigit : ∀ c ∈ Nat.toDigits 10 n, c.isDigit = true := fun c =>
    Nat.isDigit_of_mem_toDigits (by decide) (by decide)
  have htrue : Nat.toDigits 10 n ≠ "true".toList := fun he =>
    absurd (hdigit 't' (by rw [he]; decide)) (by decide)
  have hfalse : Nat.toDigits 10 n ≠ "false".toList := fun he =>
    absurd (hdigit 'f' (by rw [he]; decide)) (by decide)
  rw [scalarOf, if_neg htrue, if_neg hfalse,
    if_neg (by simp [isDate_of_digits hdigit]), if_neg (by simp [isFloat_of_digits hdigit]),
    integer_toDigits h]
  rfl

theorem scalarText_append (h : ∀ c ∈ cs, continuesScalar c = true) (hrest : PastValue rest) :
    scalarText (cs ++ rest) = (cs, rest) := by
  obtain ⟨c, rest, rfl, hc⟩ := hrest
  have hstop : continuesScalar c = false := by
    rcases hc with rfl | rfl | rfl <;> decide
  have htake : (cs ++ c :: rest).takeWhile continuesScalar = cs := by
    rw [List.takeWhile_append_of_pos h, List.takeWhile_cons_of_neg (by simp [hstop]),
      List.append_nil]
  have hdrop : (cs ++ c :: rest).dropWhile continuesScalar = c :: rest := by
    rw [List.dropWhile_append_of_pos h, List.dropWhile_cons_of_neg (by simp [hstop])]
  unfold scalarText
  simp only [htake, hdrop]
  split
  · next he =>
    obtain rfl : c = ' ' := (List.cons.inj he).1
    rcases hc with hc | hc | hc <;> cases hc
  · rfl

theorem scalar_toDigits (h : n < integerLimit) (hrest : PastValue rest) :
    scalar (Nat.toDigits 10 n ++ rest) = some (.integer n, rest) := by
  have hcontinues : ∀ c ∈ Nat.toDigits 10 n, continuesScalar c = true := by
    intro c hc
    have hd : c.isDigit = true := Nat.isDigit_of_mem_toDigits (by decide) (by decide) hc
    simp [continuesScalar, Char.isAlphanum, hd]
  rw [scalar, scalarText_append hcontinues hrest, scalarOf_toDigits h]
  rfl

/-! ## Values -/

open Reader (gap gapLines accept expect)

/-- No blank, comment or line end stands here. -/
def Solid (cs : List Char) : Prop :=
  ∃ c rest, cs = c :: rest ∧ isSpace c = false ∧ c ≠ '#' ∧ c ≠ '\n' ∧ c ≠ '\r'

theorem Solid.append (h : Solid cs) (rest : List Char) : Solid (cs ++ rest) := by
  obtain ⟨c, tail, rfl, hc⟩ := h
  exact ⟨c, tail ++ rest, rfl, hc⟩

theorem newline?_eq_none (hn : c ≠ '\n') (hr : c ≠ '\r') (cs : List Char) :
    newline? (c :: cs) = none := by
  rw [newline?]
  · exact fun _ he => hn (List.cons.inj he).1
  · exact fun _ he => hr (List.cons.inj he).1

theorem Solid.skipComment (h : Solid cs) : Reader.skipComment (skipSpaces cs) = cs := by
  obtain ⟨c, tail, rfl, hs, hc, -⟩ := h
  rw [skipSpaces_cons hs, Reader.skipComment]
  exact fun _ he => hc (List.cons.inj he).1

theorem Solid.gapLines (h : Solid cs) (fuel : Nat) : gapLines cs fuel = cs := by
  cases fuel with
  | zero => rfl
  | succ fuel =>
    rw [Reader.gapLines, h.skipComment]
    obtain ⟨c, tail, rfl, -, -, hn, hr⟩ := h
    rw [newline?_eq_none hn hr]

theorem Solid.gap (h : Solid cs) : gap cs = some ((), cs) := by
  rw [Reader.gap, h.gapLines]

theorem gapLines_newline (cs : List Char) (fuel : Nat) :
    gapLines ('\n' :: cs) (fuel + 1) = gapLines cs fuel := by
  rw [Reader.gapLines]
  rfl

theorem gapLines_space (hs : isSpace c = true) (cs : List Char) (fuel : Nat) :
    gapLines (c :: cs) (fuel + 1) = gapLines cs (fuel + 1) := by
  have hskip : skipSpaces (c :: cs) = skipSpaces cs := by simp [skipSpaces, hs]
  rw [Reader.gapLines, Reader.gapLines, hskip]

theorem gap_item (h : Solid cs) :
    gap ('\n' :: ' ' :: ' ' :: ' ' :: ' ' :: cs) = some ((), cs) := by
  rw [Reader.gap, gapLines_newline]
  simp only [List.length_cons, gapLines_space (c := ' ') rfl, h.gapLines]

theorem gap_newline (h : Solid cs) : gap ('\n' :: cs) = some ((), cs) := by
  rw [Reader.gap, gapLines_newline, h.gapLines]

theorem value_quoted (hc : c = '"' ∨ c = '\'') (depth : Nat) (cs : List Char) :
    Reader.value (depth + 1) (c :: cs) =
      (string (c :: cs)).map fun (s, r) => (Value.string s, r) := by
  rcases hc with rfl | rfl
  · rfl
  · rfl

theorem value_array (depth : Nat) (cs : List Char) :
    Reader.value (depth + 1) ('[' :: cs) =
      (Reader.items (Reader.value depth) (cs.length + 1) cs).map fun (vs, r) => (.array vs, r) :=
  rfl

theorem value_scalar (hc : c ∉ ['[', '\x7b', '"', '\'']) (depth : Nat) (cs : List Char) :
    Reader.value (depth + 1) (c :: cs) = scalar (c :: cs) := by
  have hne {d : Char} (hd : d ∈ ['[', '\x7b', '"', '\'']) {tail : List Char} : c :: cs ≠ d :: tail :=
    fun he => hc ((List.cons.inj he).1 ▸ hd)
  unfold Reader.value
  dsimp only
  split
  · next he => exact absurd he (hne (by simp))
  · next he => exact absurd he (hne (by simp))
  · next he => exact absurd he (hne (by simp))
  · next he => exact absurd he (hne (by simp))
  · rfl

theorem print_string (text : String) : Printer.value (.string text) = Printer.string text := by rfl

theorem print_natural (n : Nat) : Printer.value (.integer n) = Nat.toDigits 10 n := Nat.toList_repr

theorem print_items (v : Value) (vs : List Value) : Printer.items (v :: vs) =
    ' ' :: ' ' :: ' ' :: ' ' :: (Printer.value v ++ ',' :: '\n' :: Printer.items vs) := by
  have he : Printer.items (v :: vs) =
      "    ".toList ++ Printer.value v ++ ",\n".toList ++ Printer.items vs := by rfl
  rw [he, List.append_assoc, List.append_assoc]
  rfl

theorem print_singleton (v : Value) :
    Printer.value (.array [v]) = '[' :: (Printer.value v ++ [']']) := by rfl

theorem print_array (v w : Value) (vs : List Value) : Printer.value (.array (v :: w :: vs)) =
    '[' :: '\n' :: (Printer.items (v :: w :: vs) ++ [']']) := by rfl

/-- The value is read back where values stand. -/
structure Readable (depth : Nat) (v : Value) : Prop where
  solid : Solid (Printer.value v)
  notClosing : ∀ rest, Printer.value v ≠ ']' :: rest
  read : ∀ rest, PastValue rest →
    Reader.value depth (Printer.value v ++ rest) = some (v, rest)

theorem PastValue.solid (h : PastValue rest) (hline : rest.head? ≠ some '\n') : Solid rest := by
  obtain ⟨c, tail, rfl, hc⟩ := h
  rcases hc with rfl | rfl | rfl
  · exact absurd rfl hline
  · exact ⟨',', tail, rfl, by decide⟩
  · exact ⟨']', tail, rfl, by decide⟩

theorem readable_string (text : String) (depth : Nat) : Readable (depth + 1) (.string text) := by
  have hfirst : ∃ c cs, Printer.string text = c :: cs ∧ (c = '"' ∨ c = '\'') := by
    rcases string_cases text with he | he | ⟨he, -⟩ | ⟨gap, he, -⟩
    · exact ⟨_, _, he, .inl rfl⟩
    · exact ⟨_, _, he, .inl rfl⟩
    · exact ⟨_, _, he, .inr rfl⟩
    · exact ⟨_, _, he, .inr rfl⟩
  obtain ⟨c, cs, he, hc⟩ := hfirst
  have hvalue : Printer.value (.string text) = c :: cs := (print_string text).trans he
  refine ⟨?_, ?_, fun rest hrest => ?_⟩
  · rw [hvalue]
    rcases hc with rfl | rfl
    · exact ⟨'"', cs, rfl, by decide⟩
    · exact ⟨'\'', cs, rfl, by decide⟩
  · intro rest hclose
    rw [hvalue, List.cons.injEq] at hclose
    rw [hclose.1] at hc
    exact absurd hc (by decide)
  · have hread := string_append text hrest.pastQuotes
    rw [he, List.cons_append] at hread
    rw [hvalue, List.cons_append, value_quoted hc, hread]
    rfl

theorem readable_natural (h : n < integerLimit) (depth : Nat) :
    Readable (depth + 1) (.integer n) := by
  have hvalue := print_natural n
  have hdigit : ∀ c ∈ Nat.toDigits 10 n, c.isDigit = true := fun c =>
    Nat.isDigit_of_mem_toDigits (by decide) (by decide)
  obtain ⟨c, cs, he⟩ := List.exists_cons_of_ne_nil (Nat.toDigits_ne_nil (n := n) (b := 10))
  have hc : c.isDigit = true := hdigit c (by rw [he]; exact List.mem_cons_self)
  have hne {d : Char} (hd : d.isDigit = false) : c ≠ d := ne_of_isDigit hc hd
  refine ⟨?_, ?_, fun rest hrest => ?_⟩
  · have hspace : isSpace c = false := by
      simp [isSpace, hne (d := ' ') (by decide), hne (d := '\t') (by decide)]
    rw [hvalue, he]
    exact ⟨c, cs, rfl, hspace, hne (by decide), hne (by decide), hne (by decide)⟩
  · intro rest hclose
    rw [hvalue, he, List.cons.injEq] at hclose
    exact hne (by decide) hclose.1
  · have hread := scalar_toDigits h hrest
    rw [he, List.cons_append] at hread
    have hmark : c ∉ ['[', '\x7b', '"', '\''] := by
      intro hmem
      rcases (by simpa using hmem : c = '[' ∨ c = '\x7b' ∨ c = '"' ∨ c = '\'') with rfl | rfl | rfl | rfl
      all_goals exact absurd hc (by decide)
    rw [hvalue, he, List.cons_append, value_scalar hmark, hread]

/-! ## Arrays -/

variable {read : Reader Value} {v : Value} {vs : List Value}

theorem items_closed (hgap : gap cs = some ((), ']' :: rest)) (fuel : Nat) :
    Reader.items read (fuel + 1) cs = some ([], rest) := by
  have hclose : accept "]" (']' :: rest) = some (true, rest) := accept_eq_true "]" rest
  rw [Reader.items]
  simp only [bind, StateT.bind, hgap, Option.bind_some, hclose]
  rfl

theorem accept_closing (h : cs.head? ≠ some ']') : accept "]" cs = some (false, cs) := by
  refine accept_eq_false ?_
  cases cs with
  | nil => rfl
  | cons c cs =>
    have hc : ']' ≠ c := fun he => h (by rw [← he]; rfl)
    simp [List.isPrefixOf, hc]

variable {front behind : List Char}

theorem items_last (hgap : gap cs = some ((), front)) (hfront : front.head? ≠ some ']')
    (hread : read front = some (v, behind)) (hbehind : gap behind = some ((), ']' :: rest))
    (fuel : Nat) : Reader.items read (fuel + 1) cs = some ([v], rest) := by
  have hcomma : accept "," (']' :: rest) = some (false, ']' :: rest) := accept_eq_false rfl
  have hclose : expect "]" (']' :: rest) = some ((), rest) := expect_append "]" rest
  rw [Reader.items]
  simp only [bind, StateT.bind, hgap, Option.bind_some, accept_closing hfront, hread, hbehind,
    hcomma, hclose, Bool.false_eq_true, if_false]
  rfl

theorem items_comma (hgap : gap cs = some ((), front)) (hfront : front.head? ≠ some ']')
    (hread : read front = some (v, behind)) (hbehind : gap behind = some ((), ',' :: rest))
    {fuel : Nat} {r : List Char} (hrest : Reader.items read fuel rest = some (vs, r)) :
    Reader.items read (fuel + 1) cs = some (v :: vs, r) := by
  have hcomma : accept "," (',' :: rest) = some (true, rest) := accept_eq_true "," rest
  rw [Reader.items]
  simp only [bind, StateT.bind, hgap, Option.bind_some, accept_closing hfront, hread, hbehind,
    hcomma, hrest, Bool.false_eq_true, if_false, if_true]
  rfl

variable {depth : Nat}

theorem Readable.head_ne (h : Readable depth v) (rest : List Char) :
    (Printer.value v ++ rest).head? ≠ some ']' := by
  obtain ⟨c, tail, he, -⟩ := h.solid
  rw [he]
  intro hc
  have hc' : c = ']' := by simpa using hc
  exact h.notClosing tail (hc' ▸ he)

theorem solid_comma (rest : List Char) : Solid (',' :: rest) := ⟨',', rest, rfl, by decide⟩

theorem solid_closing (rest : List Char) : Solid (']' :: rest) := ⟨']', rest, rfl, by decide⟩

theorem items_append (h : ∀ v ∈ vs, Readable depth v) (rest : List Char) {fuel : Nat}
    (hf : vs.length < fuel) :
    Reader.items (Reader.value depth) fuel ('\n' :: (Printer.items vs ++ ']' :: rest)) =
      some (vs, rest) := by
  induction vs generalizing fuel with
  | nil =>
    obtain ⟨fuel, rfl⟩ := Nat.exists_eq_succ_of_ne_zero (Nat.ne_of_gt hf)
    exact items_closed (gap_newline (solid_closing rest)) fuel
  | cons v vs ih =>
    obtain ⟨fuel, rfl⟩ := Nat.exists_eq_succ_of_ne_zero (Nat.ne_of_gt (Nat.zero_lt_of_lt hf))
    obtain ⟨hv, hvs⟩ := List.forall_mem_cons.1 h
    have hread := hv.read (',' :: '\n' :: (Printer.items vs ++ ']' :: rest)) ⟨_, _, rfl, by simp⟩
    have hitems : '\n' :: (Printer.items (v :: vs) ++ ']' :: rest) =
        '\n' :: ' ' :: ' ' :: ' ' :: ' ' ::
          (Printer.value v ++ ',' :: '\n' :: (Printer.items vs ++ ']' :: rest)) := by
      rw [print_items]
      simp
    rw [hitems]
    exact items_comma (gap_item (hv.solid.append _)) (hv.head_ne _) hread (solid_comma _).gap
      (ih hvs (Nat.lt_of_succ_lt_succ hf))

theorem length_le_items (vs : List Value) : vs.length ≤ (Printer.items vs).length := by
  induction vs with
  | nil => exact Nat.zero_le _
  | cons v vs ih =>
    rw [print_items]
    simp only [List.length_cons, List.length_append]
    omega

theorem readable_of_items {tail : List Char} (hvalue : Printer.value (.array vs) = '[' :: tail)
    (hread : ∀ rest, Reader.items (Reader.value depth) ((tail ++ rest).length + 1) (tail ++ rest) =
      some (vs, rest)) : Readable (depth + 1) (.array vs) := by
  refine ⟨?_, ?_, fun rest _ => ?_⟩
  · rw [hvalue]
    exact ⟨'[', tail, rfl, by decide⟩
  · intro rest hclose
    rw [hvalue] at hclose
    exact absurd (List.cons.inj hclose).1 (by decide)
  · rw [hvalue, List.cons_append, value_array, hread]
    rfl

theorem readable_array (h : ∀ v ∈ vs, Readable depth v) : Readable (depth + 1) (.array vs) := by
  match vs, h with
  | [], _ =>
    have hprint : Printer.value (.array []) = '[' :: [']'] := rfl
    exact readable_of_items hprint fun rest => items_closed (solid_closing rest).gap _
  | [v], h =>
    have hv := h v List.mem_cons_self
    refine readable_of_items (print_singleton v) fun rest => ?_
    rw [List.append_assoc]
    exact items_last (hv.solid.append _).gap (hv.head_ne _) (hv.read _ ⟨_, _, rfl, by simp⟩)
      (solid_closing rest).gap _
  | v :: w :: vs, h =>
    refine readable_of_items (print_array v w vs) fun rest => ?_
    rw [List.cons_append, List.append_assoc, List.singleton_append]
    refine items_append h rest ?_
    have hlen := length_le_items (v :: w :: vs)
    simp only [List.length_cons, List.length_append] at hlen ⊢
    omega

end JpaScaffold.Toml
