import JpaScaffold.Java.Name

/-!
Types as they are written in Java source: a dotted name, type arguments between angle brackets, and
pairs of square brackets behind them. Blanks may stand around every part.
-/
namespace JpaScaffold.Java

/-- A type: its name, its type arguments and the number of its array dimensions. -/
inductive TypeRef where
  | mk (name : String) (args : List TypeRef) (dims : Nat)

namespace TypeRef

def name : TypeRef → String
  | mk name _ _ => name

def args : TypeRef → List TypeRef
  | mk _ args _ => args

def dims : TypeRef → Nat
  | mk _ _ dims => dims

mutual

def text : TypeRef → String
  | mk name args dims =>
    name ++ (if args.isEmpty then "" else "<" ++ ", ".intercalate (texts args) ++ ">") ++
      String.join (List.replicate dims "[]")

def texts : List TypeRef → List String
  | [] => []
  | t :: rest => t.text :: texts rest

end

theorem texts_eq_map (ts : List TypeRef) : texts ts = ts.map text := by
  induction ts with
  | nil => rfl
  | cons t rest ih => rw [texts, ih, List.map_cons]

def endsName (c : Char) : Bool := c == '<' || c == '>' || c == ',' || c == '['

/-- The pairs of square brackets in front, and the text after them. -/
def readDims (cs : List Char) : Nat × List Char :=
  match h : Text.trimStart cs with
  | '[' :: inner =>
    match h' : Text.trimStart inner with
    | ']' :: rest =>
      have := Text.length_lt_of_trimStart h
      have := Text.length_lt_of_trimStart h'
      let r := readDims rest
      (r.1 + 1, r.2)
    | _ => (0, cs)
  | _ => (0, cs)
termination_by cs.length

theorem readDims_length_le (cs : List Char) : (readDims cs).2.length ≤ cs.length := by
  fun_induction readDims cs with
  | case1 _ _ _ _ _ _ _ r ih =>
    change r.2.length ≤ _ at ih
    exact Nat.le_of_lt (Nat.lt_of_le_of_lt ih (by omega))
  | case2 => simp
  | case3 => simp

/-- The name in front, and the text from the character that ends it. -/
def readName (cs : List Char) : Option (String × List Char) :=
  match qualifiedName .typeName (String.ofList (Text.trim (cs.takeWhile (!endsName ·)))) with
  | .ok name => some (name, cs.dropWhile (!endsName ·))
  | .error _ => none

theorem readName_length_lt {cs rest : List Char} {name : String}
    (h : readName cs = some (name, rest)) : rest.length < cs.length := by
  unfold readName at h
  split at h
  · next name' hn =>
    simp only [Option.some.injEq, Prod.mk.injEq] at h
    have hsplit := congrArg List.length
      (List.takeWhile_append_dropWhile (p := fun c => !endsName c) (l := cs))
    rw [List.length_append] at hsplit
    have hne : cs.takeWhile (fun c => !endsName c) ≠ [] := by
      intro h0
      rw [h0] at hn
      simp [Text.trim, Text.trimEnd, Text.trimStart, Text.dropEndWhile, qualifiedName] at hn
    have := List.length_pos_iff.2 hne
    rw [← h.2]
    omega
  · cases h

mutual

/-- The type in front, and the text after it. -/
def read (cs : List Char) : Option { p : TypeRef × List Char // p.2.length < cs.length } :=
  match h : readName cs with
  | none => none
  | some (name, '<' :: rest) =>
    have hlt : rest.length < cs.length := Nat.lt_of_succ_lt (readName_length_lt h)
    match readArgs rest with
    | none => none
    | some ⟨(args, rest'), hr⟩ =>
      some ⟨(mk name args (readDims rest').1, (readDims rest').2),
        Nat.lt_of_le_of_lt (readDims_length_le rest') (Nat.lt_trans hr hlt)⟩
  | some (name, rest) =>
    some ⟨(mk name [] (readDims rest).1, (readDims rest).2),
      Nat.lt_of_le_of_lt (readDims_length_le rest) (readName_length_lt h)⟩
termination_by (cs.length, 0)

/-- The type arguments in front up to the closing angle bracket, and the text after it. -/
def readArgs (cs : List Char) : Option { p : List TypeRef × List Char // p.2.length < cs.length } :=
  match read cs with
  | none => none
  | some ⟨(first, rest), hlt⟩ =>
    match h : Text.trimStart rest with
    | ',' :: more =>
      have hm : more.length < cs.length := Nat.lt_trans (Text.length_lt_of_trimStart h) hlt
      match readArgs more with
      | none => none
      | some ⟨(others, rest'), hr⟩ => some ⟨(first :: others, rest'), Nat.lt_trans hr hm⟩
    | '>' :: rest' =>
      some ⟨([first], rest'), Nat.lt_trans (Text.length_lt_of_trimStart h) hlt⟩
    | _ => none
termination_by (cs.length, 1)

end

/-- The type that a text writes. Nothing but blanks may stand behind it. -/
def parse (source : String) : Except BuildError TypeRef :=
  let trimmed := Text.trim source.toList
  if trimmed.isEmpty then .error (.emptyName .typeName)
  else
    match read trimmed with
    | some ⟨(t, rest), _⟩ =>
      if (Text.trim rest).isEmpty then .ok t else .error (.invalidName .typeName source)
    | none => .error (.invalidName .typeName source)

/-- The type that a text writes, with `args` as its type arguments. -/
def generic (source : String) (args : List TypeRef) : Except BuildError TypeRef :=
  (parse source).map fun t => mk t.name args t.dims

end TypeRef

end JpaScaffold.Java
