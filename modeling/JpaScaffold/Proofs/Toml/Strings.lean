import JpaScaffold.Toml.Printer
import Mathlib.Tactic

/-!
# Strings and names that are read back

The printer writes a string in one of four forms and a name in one of three. Each of them is read
back in front of every text that does not go on with a quotation mark, or with another character of
a bare name.
-/
namespace JpaScaffold.Toml

variable {c quote : Char} {cs rest : List Char}

/-! ## Escapes -/

theorem hexDigit?_hexDigit : ∀ n < 16, hexDigit? (Printer.hexDigit n) = some n := by decide

theorem escape_control (h : c.toNat < 256) (rest : List Char) :
    escape ('u' :: '0' :: '0' :: Printer.hexDigit (c.toNat / 16) ::
      Printer.hexDigit (c.toNat % 16) :: rest) = some (c, rest) := by
  have hhigh := hexDigit?_hexDigit (c.toNat / 16) (by omega)
  have hlow := hexDigit?_hexDigit (c.toNat % 16) (by omega)
  have hzero : hexDigit? '0' = some 0 := by decide
  have hvalue : valueOf 16 [0, 0, c.toNat / 16, c.toNat % 16] = c.toNat := by
    simp only [valueOf, List.foldl_cons, List.foldl_nil]
    omega
  have hvalid : c.toNat.isValidChar := c.valid
  simp [escape, codePoint, List.mapM_cons, hhigh, hlow, hzero, hvalue, hvalid, Char.ofNat_toNat]

theorem skipLineEnd_eq_none (hs : isSpace c = false) (hn : c ≠ '\n') (hr : c ≠ '\r')
    (rest : List Char) : skipLineEnd (c :: rest) = none := by
  have hskip : skipSpaces (c :: rest) = c :: rest := by simp [skipSpaces, hs]
  rw [skipLineEnd, hskip, newline?]
  · rfl
  · intro _ he
    exact hn (List.cons.inj he).1
  · intro _ he
    exact hr (List.cons.inj he).1

/-- What is written for a character between quotation marks: the character itself, or a backslash
and characters that are read as its escape. -/
theorem escaped_cases (block : Bool) (c : Char) :
    (Printer.escaped block c = [c] ∧ c ≠ '"' ∧ c ≠ '\\' ∧
        (isPlain c = true ∨ block = true ∧ c = '\n')) ∨
      ∃ d e, Printer.escaped block c = '\\' :: d :: e ∧
        (∀ rest, escape (d :: (e ++ rest)) = some (c, rest)) ∧
        ∀ rest, skipLineEnd (d :: rest) = none := by
  unfold Printer.escaped
  split
  · exact .inr ⟨'b', [], rfl, fun _ => rfl, skipLineEnd_eq_none (by decide) (by decide) (by decide)⟩
  · exact .inr ⟨'t', [], rfl, fun _ => rfl, skipLineEnd_eq_none (by decide) (by decide) (by decide)⟩
  · cases block with
    | true => exact .inl ⟨rfl, by decide, by decide, .inr ⟨rfl, rfl⟩⟩
    | false =>
      exact .inr ⟨'n', [], rfl, fun _ => rfl,
        skipLineEnd_eq_none (by decide) (by decide) (by decide)⟩
  · exact .inr ⟨'f', [], rfl, fun _ => rfl, skipLineEnd_eq_none (by decide) (by decide) (by decide)⟩
  · exact .inr ⟨'r', [], rfl, fun _ => rfl, skipLineEnd_eq_none (by decide) (by decide) (by decide)⟩
  · exact .inr ⟨'"', [], rfl, fun _ => rfl, skipLineEnd_eq_none (by decide) (by decide) (by decide)⟩
  · exact .inr ⟨'\\', [], rfl, fun _ => rfl,
      skipLineEnd_eq_none (by decide) (by decide) (by decide)⟩
  · next hquote hback =>
    split
    · next hcontrol =>
      have hlt : c.toNat < 256 := by
        simp only [Bool.or_eq_true, decide_eq_true_eq, beq_iff_eq, UInt32.lt_iff_toNat_lt,
          ← UInt32.toNat_inj] at hcontrol
        have hc : c.val.toNat = c.toNat := rfl
        have h20 : (0x20 : UInt32).toNat = 32 := rfl
        have h7f : (0x7f : UInt32).toNat = 127 := rfl
        omega
      exact .inr ⟨'u', _, rfl, fun rest => escape_control hlt rest,
        skipLineEnd_eq_none (by decide) (by decide) (by decide)⟩
    · next hcontrol =>
      refine .inl ⟨rfl, hquote, hback, .inl ?_⟩
      simp only [Bool.or_eq_true, decide_eq_true_eq, beq_iff_eq, not_or, UInt32.not_lt] at hcontrol
      simp [isPlain, hcontrol.1, hcontrol.2]

/-! ## Basic strings -/

theorem basicTail_escape {left : List Char} (h : escape rest = some (c, left)) :
    basicTail ('\\' :: rest) = (basicTail left).map fun (t, r) => (c :: t, r) := by
  rw [basicTail]
  split
  · next he =>
    rw [h] at he
    cases he
  · next he =>
    rw [h] at he
    cases he
    rfl

theorem basicTail_plain (hq : c ≠ '"') (hb : c ≠ '\\') (hp : isPlain c = true)
    (rest : List Char) : basicTail (c :: rest) = (basicTail rest).map fun (t, r) => (c :: t, r) := by
  rw [basicTail, if_pos hp]
  · exact hq
  · exact hb

theorem basicTail_escaped (cs rest : List Char) :
    basicTail (cs.flatMap (Printer.escaped false) ++ '"' :: rest) = some (cs, rest) := by
  induction cs with
  | nil => rw [List.flatMap_nil, List.nil_append, basicTail]
  | cons c cs ih =>
    rw [List.flatMap_cons, List.append_assoc]
    rcases escaped_cases false c with ⟨he, hq, hb, hp⟩ | ⟨d, e, he, hescape, -⟩
    · rw [he, List.singleton_append, basicTail_plain hq hb (hp.resolve_right (by simp)), ih]
      rfl
    · rw [he, List.cons_append, List.cons_append, basicTail_escape (hescape _), ih]
      rfl

theorem closing_eq_none {d : Char} (h : d ≠ quote) (rest : List Char) :
    closing quote (d :: rest) = none := by
  unfold closing
  split
  · next he =>
    obtain rfl : d = _ := (List.cons.inj he).1
    rw [if_neg]
    exact fun hq => h hq.1
  · rfl

theorem closing_eq_some (h : rest.head? ≠ some quote) :
    closing quote (quote :: quote :: quote :: rest) = some ([], rest) := by
  rcases rest with _ | ⟨d, _ | ⟨e, rest⟩⟩
  · simp [closing]
  · have hd : d ≠ quote := fun he => h (by rw [he]; rfl)
    simp [closing, hd]
  · have hd : d ≠ quote := fun he => h (by rw [he]; rfl)
    simp [closing, hd]

theorem ne_return_of_isLiteral (h : Printer.isLiteral c = true) : c ≠ '\r' := by
  rintro rfl
  exact absurd h (by decide)

theorem basicBlock_closed {text : List Char} {fuel : Nat} (h : closing '"' cs = some (text, rest)) :
    basicBlock cs (fuel + 1) = some (text, rest) := by
  unfold basicBlock
  rw [h]

theorem basicBlock_plain {fuel : Nat} (hq : c ≠ '"') (hb : c ≠ '\\') (hp : Printer.isLiteral c = true)
    (rest : List Char) :
    basicBlock (c :: rest) (fuel + 1) = (basicBlock rest fuel).map fun (t, r) => (c :: t, r) := by
  rw [basicBlock, closing_eq_none hq]
  · exact if_pos hp
  · exact hb
  · exact fun _ hr => absurd hr (ne_return_of_isLiteral hp)

theorem basicBlock_escape {fuel : Nat} {left : List Char} (hl : skipLineEnd rest = none)
    (h : escape rest = some (c, left)) :
    basicBlock ('\\' :: rest) (fuel + 1) =
      (basicBlock left fuel).map fun (t, r) => (c :: t, r) := by
  rw [basicBlock, closing_eq_none (by decide), hl, h]
  rfl

theorem basicBlock_escaped (h : rest.head? ≠ some '"') (cs : List Char) {fuel : Nat}
    (hf : cs.length < fuel) :
    basicBlock (cs.flatMap (Printer.escaped true) ++ '"' :: '"' :: '"' :: rest) fuel =
      some (cs, rest) := by
  induction cs generalizing fuel with
  | nil =>
    obtain ⟨fuel, rfl⟩ := Nat.exists_eq_succ_of_ne_zero (Nat.ne_of_gt hf)
    exact basicBlock_closed (closing_eq_some h)
  | cons c cs ih =>
    obtain ⟨fuel, rfl⟩ := Nat.exists_eq_succ_of_ne_zero (Nat.ne_of_gt (Nat.zero_lt_of_lt hf))
    have hrest := ih (Nat.lt_of_succ_lt_succ hf)
    rw [List.flatMap_cons, List.append_assoc]
    rcases escaped_cases true c with ⟨he, hq, hb, hp⟩ | ⟨d, e, he, hescape, hline⟩
    · have hblock : Printer.isLiteral c = true := by
        rcases hp with hp | ⟨-, rfl⟩
        · simp [Printer.isLiteral, hp]
        · rfl
      rw [he, List.singleton_append, basicBlock_plain hq hb hblock, hrest]
      rfl
    · rw [he, List.cons_append, List.cons_append, basicBlock_escape (hline _) (hescape _), hrest]
      rfl

/-! ## Literal strings -/

theorem literalTail_append (h : ∀ c ∈ cs, isPlain c = true ∧ c ≠ '\'') (rest : List Char) :
    literalTail (cs ++ '\'' :: rest) = some (cs, rest) := by
  induction cs with
  | nil => rfl
  | cons c cs ih =>
    obtain ⟨⟨hp, hq⟩, hcs⟩ := List.forall_mem_cons.1 h
    rw [List.cons_append, literalTail, if_pos hp, ih hcs]
    · rfl
    · exact hq

theorem literalBlock_plain {fuel : Nat} (hc : closing '\'' (c :: rest) = none)
    (hp : Printer.isLiteral c = true) :
    literalBlock (c :: rest) (fuel + 1) =
      (literalBlock rest fuel).map fun (t, r) => (c :: t, r) := by
  rw [literalBlock, hc]
  · exact if_pos hp
  · exact fun _ hr => absurd hr (ne_return_of_isLiteral hp)

theorem le_foldl_max {n m : Nat} {ns : List Nat} :
    n ≤ ns.foldl max m ↔ n ≤ m ∨ ∃ k ∈ ns, n ≤ k := by
  induction ns generalizing m with
  | nil => simp
  | cons k ns ih => simp [ih, or_assoc]

def quoteRuns (cs : List Char) : List (List Char) := cs.splitOnP (· != '\'')

theorem length_lt_of_mem_quoteRuns (h : Printer.longestQuotes cs < 3) :
    ∀ r ∈ quoteRuns cs, r.length < 3 := by
  intro r hr
  by_contra hlen
  refine absurd h (Nat.not_lt.2 (le_foldl_max.2 (.inr ⟨r.length, ?_, Nat.not_lt.1 hlen⟩)))
  exact List.mem_map_of_mem hr

theorem quoteRuns_cons (c : Char) (cs : List Char) :
    ∃ run runs, quoteRuns cs = run :: runs ∧
      quoteRuns (c :: cs) = if c = '\'' then (c :: run) :: runs else [] :: run :: runs := by
  obtain ⟨run, runs, he⟩ := List.exists_cons_of_ne_nil (List.splitOnP_ne_nil (· != '\'') cs)
  refine ⟨run, runs, he, ?_⟩
  rw [quoteRuns, List.splitOnP_cons_eq_if_modifyHead, he]
  by_cases hc : c = '\'' <;> simp [hc]

theorem quoteRuns_tail (h : ∀ r ∈ quoteRuns (c :: cs), r.length < 3) :
    ∀ r ∈ quoteRuns cs, r.length < 3 := by
  obtain ⟨run, runs, he, hcons⟩ := quoteRuns_cons c cs
  rw [hcons] at h
  rw [he]
  split at h
  · obtain ⟨hrun, hruns⟩ := List.forall_mem_cons.1 h
    exact List.forall_mem_cons.2 ⟨Nat.lt_of_succ_lt hrun, hruns⟩
  · exact (List.forall_mem_cons.1 h).2

theorem not_three_quotes (h : ∀ r ∈ quoteRuns cs, r.length < 3) (rest : List Char) :
    cs ≠ '\'' :: '\'' :: '\'' :: rest := by
  rintro rfl
  obtain ⟨run, runs, he, hrest⟩ := quoteRuns_cons '\'' rest
  obtain ⟨run', runs', he', hrest'⟩ := quoteRuns_cons '\'' ('\'' :: rest)
  obtain ⟨run'', runs'', he'', hcs⟩ := quoteRuns_cons '\'' ('\'' :: '\'' :: rest)
  rw [hrest, if_pos rfl] at he'
  obtain ⟨rfl, rfl⟩ := List.cons.inj he'
  rw [hrest', if_pos rfl] at he''
  obtain ⟨rfl, rfl⟩ := List.cons.inj he''
  rw [hcs, if_pos rfl] at h
  have hlen := h _ List.mem_cons_self
  simp only [List.length_cons] at hlen
  omega

theorem closing_literal (h : ∀ r ∈ quoteRuns (c :: cs), r.length < 3)
    (hlast : (c :: cs).getLast? ≠ some '\'') (rest : List Char) :
    closing '\'' (c :: cs ++ '\'' :: '\'' :: '\'' :: rest) = none := by
  rcases cs with _ | ⟨d, _ | ⟨e, cs⟩⟩
  · exact closing_eq_none (fun he => hlast (by rw [he]; rfl)) _
  · have hd : d ≠ '\'' := fun he => hlast (by rw [he]; rfl)
    simp [closing, hd]
  · have hne : ¬ (c = '\'' ∧ d = '\'' ∧ e = '\'') := by
      rintro ⟨rfl, rfl, rfl⟩
      exact not_three_quotes h cs rfl
    simp only [List.cons_append, closing, if_neg hne]

theorem literalBlock_append (hplain : ∀ c ∈ cs, Printer.isLiteral c = true)
    (hq : ∀ r ∈ quoteRuns cs, r.length < 3) (hlast : cs.getLast? ≠ some '\'')
    (hrest : rest.head? ≠ some '\'') {fuel : Nat} (hf : cs.length < fuel) :
    literalBlock (cs ++ '\'' :: '\'' :: '\'' :: rest) fuel = some (cs, rest) := by
  induction cs generalizing fuel with
  | nil =>
    obtain ⟨fuel, rfl⟩ := Nat.exists_eq_succ_of_ne_zero (Nat.ne_of_gt hf)
    rw [List.nil_append, literalBlock.eq_def]
    simp only [closing_eq_some hrest]
  | cons c cs ih =>
    obtain ⟨fuel, rfl⟩ := Nat.exists_eq_succ_of_ne_zero (Nat.ne_of_gt (Nat.zero_lt_of_lt hf))
    obtain ⟨hc, hcs⟩ := List.forall_mem_cons.1 hplain
    have hlast' : cs.getLast? ≠ some '\'' := by
      cases cs with
      | nil => simp
      | cons d cs => rwa [List.getLast?_cons_cons] at hlast
    have hclose := closing_literal hq hlast rest
    rw [List.cons_append] at hclose ⊢
    rw [literalBlock_plain hclose hc, ih hcs (quoteRuns_tail hq) hlast' (Nat.lt_of_succ_lt_succ hf)]
    rfl

/-! ## Strings -/

/-- No quotation mark stands here. -/
def PastQuotes (cs : List Char) : Prop := cs.head? ≠ some '"' ∧ cs.head? ≠ some '\''

theorem string_basic {text : List Char} (h : ∀ r, text ≠ '"' :: '"' :: r) :
    string ('"' :: text) = (basicTail text).map fun (t, r) => (String.ofList t, r) := by
  unfold string
  split
  · next he => exact absurd (List.cons.inj he).2 (h _)
  · next he =>
    cases he
    rfl
  · next he => cases he
  · next he => cases he
  · next _ hne _ _ => exact absurd rfl (hne text)

theorem string_literal {text : List Char} (h : ∀ r, text ≠ '\'' :: '\'' :: r) :
    string ('\'' :: text) = (literalTail text).map fun (t, r) => (String.ofList t, r) := by
  unfold string
  split
  · next he => cases he
  · next he => cases he
  · next he => exact absurd (List.cons.inj he).2 (h _)
  · next he =>
    cases he
    rfl
  · next hne => exact absurd rfl (hne text)

theorem string_basicBlock (text : List Char) : string ('"' :: '"' :: '"' :: text) =
    (basicBlock (skipNewline text) (text.length + 1)).map fun (t, r) => (String.ofList t, r) := by
  unfold string
  rfl

theorem string_literalBlock (text : List Char) : string ('\'' :: '\'' :: '\'' :: text) =
    (literalBlock (skipNewline text) (text.length + 1)).map fun (t, r) => (String.ofList t, r) := by
  unfold string
  rfl

theorem skipNewline_cons (hn : c ≠ '\n') (hr : c ≠ '\r') (cs : List Char) :
    skipNewline (c :: cs) = c :: cs := by
  rw [skipNewline, newline?]
  · rfl
  · exact fun _ he => hn (List.cons.inj he).1
  · exact fun _ he => hr (List.cons.inj he).1

theorem flatMap_escaped_ne (block : Bool) (h : PastQuotes rest) (text : List Char) :
    cs.flatMap (Printer.escaped block) ++ '"' :: rest ≠ '"' :: '"' :: text := by
  cases cs with
  | nil =>
    intro he
    refine h.1 ?_
    rw [List.flatMap_nil, List.nil_append, List.cons.injEq] at he
    rw [he.2]
    rfl
  | cons c cs =>
    rw [List.flatMap_cons, List.append_assoc]
    rcases escaped_cases block c with ⟨he, hq, -⟩ | ⟨d, e, he, -⟩
    · rw [he]
      exact fun h' => hq (List.cons.inj h').1
    · rw [he]
      exact fun h' => absurd (List.cons.inj h').1 (by decide)

theorem string_basic_append (cs : List Char) (h : PastQuotes rest) :
    string ('"' :: (cs.flatMap (Printer.escaped false) ++ '"' :: rest)) =
      some (String.ofList cs, rest) := by
  rw [string_basic (flatMap_escaped_ne false h), basicTail_escaped]
  rfl

theorem length_flatMap_escaped (block : Bool) (cs : List Char) :
    cs.length ≤ (cs.flatMap (Printer.escaped block)).length := by
  induction cs with
  | nil => exact Nat.le_refl 0
  | cons c cs ih =>
    have hpos : 1 ≤ (Printer.escaped block c).length := by
      rcases escaped_cases block c with ⟨he, -⟩ | ⟨d, e, he, -⟩ <;> simp [he]
    simp only [List.flatMap_cons, List.length_append, List.length_cons]
    omega

theorem string_basicBlock_append (cs : List Char) (h : PastQuotes rest) :
    string ('"' :: '"' :: '"' :: '\n' ::
      (cs.flatMap (Printer.escaped true) ++ '"' :: '"' :: '"' :: rest)) =
      some (String.ofList cs, rest) := by
  have hskip (text : List Char) : skipNewline ('\n' :: text) = text := rfl
  have hlen := length_flatMap_escaped true cs
  rw [string_basicBlock, hskip, basicBlock_escaped h.1 cs]
  · rfl
  · simp only [List.length_cons, List.length_append]
    omega

theorem string_literal_append (hplain : ∀ c ∈ cs, isPlain c = true ∧ c ≠ '\'') (hne : cs ≠ [])
    (rest : List Char) :
    string ('\'' :: (cs ++ '\'' :: rest)) = some (String.ofList cs, rest) := by
  have hfirst : ∀ text, cs ++ '\'' :: rest ≠ '\'' :: '\'' :: text := by
    obtain ⟨c, cs, rfl⟩ := List.exists_cons_of_ne_nil hne
    exact fun _ he => (hplain c List.mem_cons_self).2 (List.cons.inj he).1
  rw [string_literal hfirst, literalTail_append hplain]
  rfl

theorem string_literalBlock_append (hplain : ∀ c ∈ cs, Printer.isLiteral c = true)
    (hq : ∀ r ∈ quoteRuns cs, r.length < 3) (hlast : cs.getLast? ≠ some '\'')
    (h : PastQuotes rest) {gap : List Char} (hgap : gap = ['\n'] ∨ gap = [] ∧ '\n' ∉ cs) :
    string ('\'' :: '\'' :: '\'' :: (gap ++ (cs ++ '\'' :: '\'' :: '\'' :: rest))) =
      some (String.ofList cs, rest) := by
  have hskip : skipNewline (gap ++ (cs ++ '\'' :: '\'' :: '\'' :: rest)) =
      cs ++ '\'' :: '\'' :: '\'' :: rest := by
    rcases hgap with rfl | ⟨rfl, hfeed⟩
    · rfl
    · cases cs with
      | nil => exact skipNewline_cons (by decide) (by decide) _
      | cons c cs =>
        refine skipNewline_cons (fun hc => hfeed (by simp [hc])) ?_ _
        exact ne_return_of_isLiteral (hplain c List.mem_cons_self)
  rw [string_literalBlock, hskip, literalBlock_append hplain hq hlast h.2]
  · rfl
  · simp only [List.length_append, List.length_cons]
    omega

/-- What the printer writes for a string: one of the four forms. -/
theorem string_cases (text : String) :
    (Printer.string text = '"' :: (text.toList.flatMap (Printer.escaped false) ++ ['"'])) ∨
      (Printer.string text = '"' :: '"' :: '"' :: '\n' ::
        (text.toList.flatMap (Printer.escaped true) ++ ['"', '"', '"'])) ∨
      (Printer.string text = '\'' :: (text.toList ++ ['\'']) ∧ text.toList ≠ [] ∧
        ∀ c ∈ text.toList, isPlain c = true ∧ c ≠ '\'') ∨
      ∃ gap, Printer.string text =
          '\'' :: '\'' :: '\'' :: (gap ++ (text.toList ++ ['\'', '\'', '\''])) ∧
        (gap = ['\n'] ∨ gap = [] ∧ '\n' ∉ text.toList) ∧
        (∀ c ∈ text.toList, Printer.isLiteral c = true) ∧
        (∀ r ∈ quoteRuns text.toList, r.length < 3) ∧ text.toList.getLast? ≠ some '\'' := by
  unfold Printer.string
  simp only
  split
  · next hliteral =>
    simp only [Printer.prefersLiteral, Bool.and_eq_true, Bool.or_eq_true, decide_eq_true_eq,
      bne_iff_ne, List.all_eq_true] at hliteral
    obtain ⟨⟨⟨hmark, hall⟩, hlong⟩, hlast⟩ := hliteral
    have hruns := length_lt_of_mem_quoteRuns hlong
    by_cases hfeed : '\n' ∈ text.toList
    · exact .inr (.inr (.inr ⟨['\n'], by simp [hfeed], .inl rfl, hall, hruns, hlast⟩))
    · by_cases hquote : '\'' ∈ text.toList
      · exact .inr (.inr (.inr
          ⟨[], by simp [hfeed, hquote], .inr ⟨rfl, hfeed⟩, hall, hruns, hlast⟩))
      · refine .inr (.inr (.inl ⟨by simp [hfeed, hquote], ?_, fun c hc => ⟨?_, ?_⟩⟩))
        · intro hnil
          simp [hnil] at hmark
        · have hplain := hall c hc
          simp only [Printer.isLiteral, Bool.or_eq_true, beq_iff_eq] at hplain
          exact hplain.resolve_right fun he => hfeed (he ▸ hc)
        · exact fun he => hquote (he ▸ hc)
  · by_cases hfeed : '\n' ∈ text.toList
    · exact .inr (.inl (by simp [hfeed]))
    · exact .inl (by simp [hfeed])

/-- A string is read back in front of every text that does not start with a quotation mark. -/
theorem string_append (text : String) (h : PastQuotes rest) :
    string (Printer.string text ++ rest) = some (text, rest) := by
  have htext : String.ofList text.toList = text := String.ofList_toList
  rcases string_cases text with he | he | ⟨he, hne, hplain⟩ | ⟨gap, he, hgap, hplain, hruns, hlast⟩
  · have hread := string_basic_append text.toList h
    rw [htext] at hread
    simpa [he] using hread
  · have hread := string_basicBlock_append text.toList h
    rw [htext] at hread
    simpa [he] using hread
  · have hread := string_literal_append hplain hne rest
    rw [htext] at hread
    simpa [he] using hread
  · have hread := string_literalBlock_append hplain hruns hlast h hgap
    rw [htext] at hread
    simpa [he] using hread

/-! ## Names -/

open Reader (keyPart keyParts isBare)

/-- A bare name does not go on here. -/
def PastName (cs : List Char) : Prop := ∀ c, cs.head? = some c → isBare c = false

theorem keyPart_bare (hne : cs ≠ []) (hbare : ∀ c ∈ cs, isBare c = true) (h : PastName rest) :
    keyPart (cs ++ rest) = some (String.ofList cs, rest) := by
  have htake : (cs ++ rest).takeWhile isBare = cs := by
    rw [List.takeWhile_append_of_pos hbare]
    cases rest with
    | nil => simp
    | cons c rest => simp [h c rfl]
  have hdrop : (cs ++ rest).dropWhile isBare = rest := by
    rw [List.dropWhile_append_of_pos hbare]
    cases rest with
    | nil => simp
    | cons c rest => simp [h c rfl]
  obtain ⟨c, tail, rfl⟩ := List.exists_cons_of_ne_nil hne
  have hc := hbare c List.mem_cons_self
  have hq : c ≠ '"' := by
    rintro rfl
    exact absurd hc (by decide)
  have hq' : c ≠ '\'' := by
    rintro rfl
    exact absurd hc (by decide)
  unfold keyPart
  split
  · next he => exact absurd (List.cons.inj he).1 hq
  · next he => exact absurd (List.cons.inj he).1 hq'
  · rw [htake, hdrop]
    rfl

theorem keyPart_append (text : String) (h : PastName rest) :
    keyPart (Printer.key text ++ rest) = some (text, rest) := by
  have htext : String.ofList text.toList = text := String.ofList_toList
  unfold Printer.key
  simp only
  split
  · next hbare =>
    simp only [Bool.and_eq_true, Bool.not_eq_true', List.isEmpty_eq_false_iff,
      List.all_eq_true] at hbare
    rw [keyPart_bare hbare.1 hbare.2 h, htext]
  · split
    · next hnarrow =>
      simp only [Bool.and_eq_true, List.all_eq_true] at hnarrow
      have hplain : ∀ c ∈ text.toList, isPlain c = true ∧ c ≠ '\'' := by
        intro c hc
        have hall := hnarrow.2 c hc
        simp only [Printer.isNarrow, Bool.and_eq_true, bne_iff_ne] at hall
        exact hall.1
      have hread : keyPart ('\'' :: (text.toList ++ '\'' :: rest)) =
          some (String.ofList text.toList, rest) := by
        rw [keyPart, literalTail_append hplain]
        rfl
      rw [htext] at hread
      simpa using hread
    · have hread : keyPart ('"' :: (text.toList.flatMap (Printer.escaped false) ++ '"' :: rest)) =
          some (String.ofList text.toList, rest) := by
        rw [keyPart, basicTail_escaped]
        rfl
      rw [htext] at hread
      simpa using hread

theorem accept_eq_false {text : String} (h : text.toList.isPrefixOf cs = false) :
    Reader.accept text cs = some (false, cs) := by
  rw [Reader.accept, if_neg (by simp [h])]

theorem accept_eq_true (text : String) (rest : List Char) :
    Reader.accept text (text.toList ++ rest) = some (true, rest) := by
  have hdrop : (text.toList ++ rest).drop text.length = rest := List.drop_left
  rw [Reader.accept, if_pos (by simp), hdrop]

theorem expect_append (text : String) (rest : List Char) :
    Reader.expect text (text.toList ++ rest) = some ((), rest) := by
  rw [Reader.expect]
  simp only [bind, StateT.bind, accept_eq_true]
  rfl

theorem keyParts_of_keyPart {part : String} (hpart : keyPart (skipSpaces cs) = some (part, rest))
    (hdot : ".".toList.isPrefixOf (skipSpaces rest) = false) (fuel : Nat) :
    keyParts (fuel + 1) cs = some ([part], skipSpaces rest) := by
  rw [keyParts]
  simp only [Reader.spaces, bind, StateT.bind, hpart, Option.bind_some, accept_eq_false hdot]
  rfl

theorem skipSpaces_cons (h : isSpace c = false) (cs : List Char) : skipSpaces (c :: cs) = c :: cs := by
  simp [skipSpaces, h]

theorem exists_cons_key (text : String) : ∃ c cs, Printer.key text = c :: cs ∧
    (c = '"' ∨ c = '\'' ∨ isBare c = true) := by
  unfold Printer.key
  simp only
  split
  · next hbare =>
    simp only [Bool.and_eq_true, Bool.not_eq_true', List.isEmpty_eq_false_iff,
      List.all_eq_true] at hbare
    obtain ⟨c, cs, he⟩ := List.exists_cons_of_ne_nil hbare.1
    exact ⟨c, cs, he, .inr (.inr (hbare.2 c (by simp [he])))⟩
  · split
    · exact ⟨_, _, rfl, .inr (.inl rfl)⟩
    · exact ⟨_, _, rfl, .inl rfl⟩

theorem skipSpaces_key (text : String) (rest : List Char) :
    skipSpaces (Printer.key text ++ rest) = Printer.key text ++ rest := by
  obtain ⟨c, cs, he, hc⟩ := exists_cons_key text
  rw [he]
  refine skipSpaces_cons (eq_false_of_ne_true fun hspace => ?_) _
  rcases Bool.or_eq_true_iff.1 hspace with hspace | hspace <;>
    rw [eq_of_beq hspace] at hc <;> exact absurd hc (by decide)

theorem key_append (text : String) (h : PastName rest)
    (hdot : ".".toList.isPrefixOf (skipSpaces rest) = false) :
    Reader.key (Printer.key text ++ rest) = some ([text], skipSpaces rest) := by
  refine keyParts_of_keyPart ?_ hdot _
  rw [skipSpaces_key, keyPart_append text h]

end JpaScaffold.Toml
