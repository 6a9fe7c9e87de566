import JpaScaffold.Text.Case
import JpaScaffold.Text.Letters
import JpaScaffold.Text.Span

/-!
Lexical tokens of SQL, in the dialect of PostgreSQL. Blanks and comments are passed over; block
comments may stand inside each other. Main statement: a lexeme leaves a shorter text.
-/
namespace JpaScaffold.Sql

inductive Token where
  /-- A word without quotes, and its upper case form, by which keywords are known. -/
  | word (value keyword : String)
  /-- A name between double quotes. -/
  | quotedName (value : String)
  | number (digits : String)
  /-- A string between single quotes. -/
  | string (value : String)
  /-- Any other constant: a string of another form, or a placeholder. -/
  | constant
  | operator (text : String)
  deriving DecidableEq

def startsWord (c : Char) : Bool := Text.isAlphabetic c || c == '_'

def continuesWord (c : Char) : Bool :=
  Text.isAlphabetic c || c.isDigit || c == '_' || c == '$'

/-- The text up to a closing quote, and the text behind it. A doubled quote stands for one. -/
def quotedTail (quote : Char) : List Char → Option (List Char × List Char)
  | [] => none
  | [c] => if c = quote then some ([], []) else none
  | c :: d :: rest =>
    if c = quote then
      if d = quote then (quotedTail quote rest).map fun (t, r) => (quote :: t, r)
      else some ([], d :: rest)
    else (quotedTail quote (d :: rest)).map fun (t, r) => (c :: t, r)

/-- The text behind the closing quote of a string in which a backslash takes the next character. -/
def escapedTail : List Char → Option (List Char)
  | [] => none
  | '\\' :: _ :: rest => escapedTail rest
  | '\'' :: '\'' :: rest => escapedTail rest
  | '\'' :: rest => some rest
  | _ :: rest => escapedTail rest

/-- The text behind the end of a block comment; `inner` counts the comments open inside it. -/
def commentTail (inner : Nat) : List Char → Option (List Char)
  | [] => none
  | '/' :: '*' :: rest => commentTail (inner + 1) rest
  | '*' :: '/' :: rest =>
    match inner with
    | 0 => some rest
    | n + 1 => commentTail n rest
  | _ :: rest => commentTail inner rest

/-- The text behind the first place where `mark` stands. -/
def behind (mark : List Char) : List Char → Option (List Char)
  | [] => if mark.isEmpty then some [] else none
  | c :: rest =>
    if mark.isPrefixOf (c :: rest) then some ((c :: rest).drop mark.length) else behind mark rest

/-- The text behind a sign and digits, if they continue a number in front of an `e`. -/
def exponentTail : List Char → Option (List Char × List Char)
  | sign :: d :: rest =>
    if (sign == '+' || sign == '-') && d.isDigit then
      some (sign :: d :: rest.takeWhile Char.isDigit, rest.dropWhile Char.isDigit)
    else if sign.isDigit then
      some (sign :: (d :: rest).takeWhile Char.isDigit, (d :: rest).dropWhile Char.isDigit)
    else none
  | [d] => if d.isDigit then some ([d], []) else none
  | [] => none

/-- The exponent of a number in front, and the text behind it. -/
def exponent : List Char → List Char × List Char
  | [] => ([], [])
  | e :: rest =>
    if e == 'e' || e == 'E' then
      match exponentTail rest with
      | some (t, r) => (e :: t, r)
      | none => ([], e :: rest)
    else ([], e :: rest)

/-- The text without a suffix that marks a long number. -/
def dropLongMark : List Char → List Char
  | 'L' :: rest => rest
  | cs => cs

/-- The number that starts with the given digits and perhaps a point, and the text behind it. -/
def number (whole : List Char) (cs : List Char) : Token × List Char :=
  let fraction := cs.takeWhile Char.isDigit
  let (e, rest) := exponent (cs.dropWhile Char.isDigit)
  (.number (String.ofList (whole ++ fraction ++ e)), dropLongMark rest)

def isHexDigit (c : Char) : Bool := c.isDigit || "abcdefABCDEF".contains c

def numberAt (c : Char) (cs : List Char) : Token × List Char :=
  match c :: cs.takeWhile Char.isDigit, cs.dropWhile Char.isDigit with
  | ['0'], 'x' :: rest => (.constant, rest.dropWhile isHexDigit)
  | whole, '.' :: rest => number (whole ++ ['.']) rest
  | whole, rest => number whole rest

/-- A character of the operators that users define. -/
def isOperatorChar (c : Char) : Bool := "+-*/<>=~!@#%^&|\x60?".contains c

/-- The dollar-quoted string or the placeholder behind a dollar sign. -/
def dollar (cs : List Char) : Option (List Char) :=
  let tag := cs.takeWhile fun c => Text.isAlphanumeric c || c == '_'
  match cs.dropWhile fun c => Text.isAlphanumeric c || c == '_' with
  | '$' :: rest => behind ('$' :: tag ++ ['$']) rest
  | rest => some rest

def wordAt (c : Char) (cs : List Char) : Token × List Char :=
  let value := c :: cs.takeWhile continuesWord
  (.word (String.ofList value) (String.ofList (value.flatMap Text.upperForm)),
    cs.dropWhile continuesWord)

def operatorAt (c : Char) (cs : List Char) : Token × List Char :=
  let one : Token × List Char := (.operator c.toString, cs)
  match c, cs with
  | ':', ':' :: rest => (.operator "::", rest)
  | ':', '=' :: rest => (.operator ":=", rest)
  | '=', '=' :: rest => (.operator "==", rest)
  | '=', '>' :: rest => (.operator "=>", rest)
  | _, _ =>
    if isOperatorChar c && c != '=' && c != '+' && c != '*' && c != '/' then
      (.operator (String.ofList (c :: cs.takeWhile isOperatorChar)), cs.dropWhile isOperatorChar)
    else one

/-- The word, the number, the blank or the operator that starts with `c`. -/
def plainLexeme (c : Char) (cs : List Char) : Option Token × List Char :=
  if startsWord c then (some (wordAt c cs).1, (wordAt c cs).2)
  else if c.isDigit then (some (numberAt c cs).1, (numberAt c cs).2)
  else if c == '.' && cs.head?.any Char.isDigit then
    (some (number ['.'] cs).1, (number ['.'] cs).2)
  else if Text.isBlank c then (none, cs)
  else (some (operatorAt c cs).1, (operatorAt c cs).2)

/-- The token at the front of a text, which starts with `c`, and the text behind it. A blank and a
comment are no token. -/
def lexeme (c : Char) (cs : List Char) : Option (Option Token × List Char) :=
  match c, cs with
  | '-', '-' :: rest => some (none, rest.dropWhile fun c => c != '\n' && c != '\r')
  | '/', '*' :: rest => (commentTail 0 rest).map fun r => (none, r)
  | '\'', rest => (quotedTail '\'' rest).map fun (t, r) => (some (.string (String.ofList t)), r)
  | '"', rest => (quotedTail '"' rest).map fun (t, r) => (some (.quotedName (String.ofList t)), r)
  | '$', rest => (dollar rest).map fun r => (some .constant, r)
  | 'U', '&' :: '\'' :: rest | 'u', '&' :: '\'' :: rest =>
    (quotedTail '\'' rest).map fun (_, r) => (some .constant, r)
  | c, '\'' :: rest =>
    if c == 'e' || c == 'E' then (escapedTail rest).map fun r => (some .constant, r)
    else if c == 'n' || c == 'N' || c == 'x' || c == 'X' then
      (quotedTail '\'' rest).map fun (_, r) => (some .constant, r)
    else some (plainLexeme c ('\'' :: rest))
  | c, rest => some (plainLexeme c rest)

theorem length_dropWhile_le (p : Char → Bool) (cs : List Char) :
    (cs.dropWhile p).length ≤ cs.length := (List.dropWhile_sublist p).length_le

theorem quotedTail_length {quote : Char} {cs t r : List Char}
    (h : quotedTail quote cs = some (t, r)) : r.length ≤ cs.length := by
  fun_induction quotedTail quote cs generalizing t r with
  | case1 => cases h
  | case2 =>
    cases h
    exact Nat.zero_le _
  | case3 => cases h
  | case4 _ ih =>
    obtain ⟨_, h', he⟩ := Option.map_eq_some_iff.1 h
    cases he
    exact Nat.le_succ_of_le (Nat.le_succ_of_le (ih h'))
  | case5 =>
    cases h
    exact Nat.le_succ _
  | case6 _ _ _ _ ih =>
    obtain ⟨_, h', he⟩ := Option.map_eq_some_iff.1 h
    cases he
    exact Nat.le_succ_of_le (ih h')

theorem escapedTail_length {cs r : List Char} (h : escapedTail cs = some r) :
    r.length ≤ cs.length := by
  fun_induction escapedTail cs with
  | case1 => cases h
  | case2 _ _ ih => exact Nat.le_succ_of_le (Nat.le_succ_of_le (ih h))
  | case3 _ ih => exact Nat.le_succ_of_le (Nat.le_succ_of_le (ih h))
  | case4 =>
    cases h
    exact Nat.le_succ _
  | case5 _ _ _ _ _ ih => exact Nat.le_succ_of_le (ih h)

theorem commentTail_length {inner : Nat} {cs r : List Char} (h : commentTail inner cs = some r) :
    r.length ≤ cs.length := by
  fun_induction commentTail inner cs with
  | case1 => cases h
  | case2 _ _ ih => exact Nat.le_succ_of_le (Nat.le_succ_of_le (ih h))
  | case3 =>
    cases h
    exact Nat.le_succ_of_le (Nat.le_succ _)
  | case4 _ _ ih => exact Nat.le_succ_of_le (Nat.le_succ_of_le (ih h))
  | case5 _ _ _ _ _ ih => exact Nat.le_succ_of_le (ih h)

theorem behind_length {m cs r : List Char} (h : behind m cs = some r) : r.length ≤ cs.length := by
  induction cs with
  | nil =>
    rw [behind] at h
    split at h
    · cases h; simp
    · cases h
  | cons c rest ih =>
    rw [behind] at h
    split at h
    · simp only [Option.some.injEq] at h
      rw [← h, List.length_drop]
      omega
    · have := ih h
      simp only [List.length_cons]
      omega

theorem exponentTail_length {cs t r : List Char} (h : exponentTail cs = some (t, r)) :
    r.length ≤ cs.length := by
  unfold exponentTail at h
  split at h
  · next sign d rest =>
    have h1 := length_dropWhile_le Char.isDigit rest
    have h2 := length_dropWhile_le Char.isDigit (d :: rest)
    split at h
    · simp only [Option.some.injEq, Prod.mk.injEq] at h
      simp only [← h.2, List.length_cons]
      omega
    · split at h
      · simp only [Option.some.injEq, Prod.mk.injEq] at h
        simp only [← h.2, List.length_cons] at h2 ⊢
        omega
      · cases h
  · split at h
    · simp only [Option.some.injEq, Prod.mk.injEq] at h
      simp [← h.2]
    · cases h
  · cases h

theorem exponent_length (cs : List Char) : (exponent cs).2.length ≤ cs.length := by
  unfold exponent
  split
  · simp
  · split
    · split
      · next h => exact Nat.le_succ_of_le (exponentTail_length h)
      · simp
    · simp

theorem dropLongMark_length (cs : List Char) : (dropLongMark cs).length ≤ cs.length := by
  unfold dropLongMark
  split <;> simp

theorem number_length (whole cs : List Char) : (number whole cs).2.length ≤ cs.length :=
  Nat.le_trans (dropLongMark_length _)
    (Nat.le_trans (exponent_length _) (length_dropWhile_le _ _))

theorem numberAt_length (c : Char) (cs : List Char) : (numberAt c cs).2.length ≤ cs.length := by
  have hd := length_dropWhile_le Char.isDigit cs
  unfold numberAt
  split
  · next rest _ h =>
    rw [h, List.length_cons] at hd
    have := length_dropWhile_le isHexDigit rest
    simp only
    omega
  · next rest _ h =>
    rw [h, List.length_cons] at hd
    exact Nat.le_trans (number_length _ _) (by omega)
  · exact Nat.le_trans (number_length _ _) hd

theorem operatorAt_length (c : Char) (cs : List Char) :
    (operatorAt c cs).2.length ≤ cs.length := by
  unfold operatorAt
  split
  all_goals try (simp only [List.length_cons]; omega)
  split
  · exact length_dropWhile_le _ _
  · exact Nat.le_refl _

theorem dollar_length {cs r : List Char} (h : dollar cs = some r) : r.length ≤ cs.length := by
  have hd := length_dropWhile_le (fun c => Text.isAlphanumeric c || c == '_') cs
  unfold dollar at h
  split at h
  · next rest hr =>
    rw [hr, List.length_cons] at hd
    have := behind_length h
    omega
  · simp only [Option.some.injEq] at h
    exact h ▸ hd

theorem plainLexeme_length (c : Char) (cs : List Char) :
    (plainLexeme c cs).2.length ≤ cs.length := by
  unfold plainLexeme
  split
  · exact length_dropWhile_le _ _
  · split
    · exact numberAt_length c cs
    · split
      · exact number_length ['.'] cs
      · split
        · exact Nat.le_refl _
        · exact operatorAt_length c cs

/-- A lexeme leaves no more than the text behind its first character. -/
theorem lexeme_length {c : Char} {cs r : List Char} {t : Option Token}
    (h : lexeme c cs = some (t, r)) : r.length ≤ cs.length := by
  have mapped {α : Type} {o : Option α} {f : α → Option Token × List Char} {n : Nat}
      (hf : ∀ a, o = some a → (f a).2.length ≤ n) (h : o.map f = some (t, r)) :
      r.length ≤ n := by
    obtain ⟨a, ha, he⟩ := Option.map_eq_some_iff.1 h
    have := hf a ha
    rwa [he] at this
  have plain {cs : List Char} (h : some (plainLexeme c cs) = some (t, r)) :
      r.length ≤ cs.length := by
    have := plainLexeme_length c cs
    rwa [Option.some.inj h] at this
  unfold lexeme at h
  split at h
  · next rest =>
    simp only [Option.some.injEq, Prod.mk.injEq] at h
    have := length_dropWhile_le (fun c => c != '\n' && c != '\r') rest
    simp only [← h.2, List.length_cons]
    omega
  · exact mapped (fun a ha => Nat.le_succ_of_le (commentTail_length ha)) h
  · exact mapped (fun a ha => quotedTail_length ha) h
  · exact mapped (fun a ha => quotedTail_length ha) h
  · exact mapped (fun a ha => dollar_length ha) h
  · exact mapped (fun a ha => Nat.le_succ_of_le (Nat.le_succ_of_le (quotedTail_length ha))) h
  · exact mapped (fun a ha => Nat.le_succ_of_le (Nat.le_succ_of_le (quotedTail_length ha))) h
  · split at h
    · exact mapped (fun a ha => Nat.le_succ_of_le (escapedTail_length ha)) h
    · split at h
      · exact mapped (fun a ha => Nat.le_succ_of_le (quotedTail_length ha)) h
      · exact plain h
  · exact plain h

/-- The tokens of a text, or nothing if a quote or a comment stays open. -/
def tokenize (cs : List Char) : Option (List Token) :=
  match cs with
  | [] => some []
  | c :: rest =>
    match h : lexeme c rest with
    | none => none
    | some (t, left) =>
      have := lexeme_length h
      (tokenize left).map (t.toList ++ ·)
termination_by cs.length
decreasing_by simp only [List.length_cons]; omega

end JpaScaffold.Sql
