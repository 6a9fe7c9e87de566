import JpaScaffold.Proofs.Java.UnitSource
import JpaScaffold.Proofs.Units.Success

/-!
# Values in generated source

A value is a phrase that goes into a statement as it stands. Calls on values and chains of calls are
values again, and a statement around a value is an expression statement. The free texts of the
default configuration are values, and can be named as authors.
-/
namespace JpaScaffold

open Text (isBlank)

/-- The texts of a configuration that go into generated source as they stand. -/
def Config.freeTexts (c : Config) : List String :=
  [c.author, c.partitionContext.expression, c.idGenerator.nextId, c.idGenerator.nextIdAsString] ++
    c.defaultValueMap.entries.map Prod.snd

namespace Units

open Java (isBlank_eq_false_of_isWordChar isSimpleName isQualifiedName isWordChar bareStatement)
open Java.Layout (Loose Opening Phrase Unequal laidComment phrase_name phrase_word)

variable {A : Prop} {cs ds : List Char} {name text : String}

/-- The text ends in a character that is neither blank nor a semicolon. -/
def Ended (cs : List Char) : Prop := ∃ c, cs.getLast? = some c ∧ isBlank c = false ∧ c ≠ ';'

theorem Ended.append (h : Ended ds) (cs : List Char) : Ended (cs ++ ds) := by
  obtain ⟨c, hc, hb, hne⟩ := h
  refine ⟨c, ?_, hb, hne⟩
  rw [List.getLast?_append, hc]
  rfl

theorem ended_of_isSimpleName (h : isSimpleName cs = true) : Ended cs := by
  have hne := Java.ne_nil_of_isSimpleName h
  have hword := Java.isWordChar_of_isSimpleName h _ (List.getLast_mem hne)
  refine ⟨_, List.getLast?_eq_getLast_of_ne_nil hne, isBlank_eq_false_of_isWordChar hword, ?_⟩
  intro hs
  rw [hs] at hword
  revert hword
  decide

/-- The text is a phrase, and a statement may end in it. -/
structure IsValue (cs : List Char) : Prop where
  phrase : Phrase Loose True cs
  ended : Ended cs

theorem isValue_name (h : isSimpleName cs = true) : IsValue cs :=
  ⟨phrase_name h, ended_of_isSimpleName h⟩

theorem phrase_arguments (h : Phrase Loose A cs) : Phrase Loose A ('(' :: (cs ++ [')'])) :=
  (h.group .paren).mono id fun _ _ => trivial

theorem isValue_call (hname : Phrase Loose True cs) (h : Phrase Loose True ds) :
    IsValue (cs ++ '(' :: (ds ++ [')'])) := by
  refine ⟨hname.append_cons (phrase_arguments h) (by decide), Ended.append ?_ cs⟩
  exact ⟨')', by rw [← List.cons_append, List.getLast?_concat], by decide, by decide⟩

theorem phrase_member (h : Phrase Loose A cs) (hname : isSimpleName ds = true) :
    Phrase Loose A (cs ++ '.' :: ds) := by
  have hpoint : Phrase Java.Layout.Whatever A ['.'] := Java.Layout.phrase_mark (.inr rfl)
  exact h.append (hpoint.append (phrase_name hname) fun _ _ => trivial) fun next _ =>
    Java.Layout.loose_point (Java.startsWithDigit_of_isSimpleName hname next)

/-! ## Statements -/

/-- A statement that begins with a word and ends like a value is written as it stands. -/
theorem regular_expression {c : Char} (h : Opening True text.toList) (hfirst : text.toList.head? = some c)
    (hc : isBlank c = false) (hend : Ended text.toList) : (expression text).Regular := by
  obtain ⟨last, hlast, hb, hne⟩ := hend
  have htrimmed : Text.Trimmed text.toList := by
    refine ⟨fun d hd => ?_, fun d hd => ?_⟩
    · rw [hfirst] at hd
      cases hd
      exact hc
    · rw [hlast] at hd
      cases hd
      exact hb
  have hsemicolon : text.toList.getLast? ≠ some ';' := by
    rw [hlast]
    exact fun h => hne (Option.some.inj h)
  rw [expression, Java.bareStatement_eq_self htrimmed hsemicolon]
  exact .expression h

theorem regular_return (h : IsValue text.toList) : (expression ("return " ++ text)).Regular := by
  have htext : ("return " ++ text).toList = "return".toList ++ ' ' :: text.toList := by
    rw [String.toList_append]
    rfl
  have hopening : Opening True ("return".toList ++ ' ' :: text.toList) :=
    h.phrase.blank.opening (by decide) (List.all_eq_true.1 (by decide)) (by decide)
      (by decide) fun _ _ => Java.Layout.loose_of_mem (by decide) _
  have hend : Ended ("return".toList ++ [' '] ++ text.toList) := h.ended.append _
  refine regular_expression (c := 'r') (by rw [htext]; exact hopening) (by rw [htext]; rfl)
    (by decide) ?_
  rw [htext]
  simpa using hend

/-- A field of the object that takes a value. -/
theorem regular_assignment (hname : isSimpleName name.toList = true) (h : IsValue text.toList) :
    (expression ("this." ++ name ++ " = " ++ text)).Regular := by
  have htext : ("this." ++ name ++ " = " ++ text).toList =
      "this".toList ++ '.' :: (name.toList ++ ' ' :: (['='] ++ ' ' :: text.toList)) := by
    simp [String.toList_append]
  have hassign : Phrase Unequal True ['='] :=
    Java.Layout.phrase_operator (by decide) fun _ => trivial
  have hvalue := (hassign.append h.phrase.blank fun _ _ => by simp [Unequal]).blank
  have hpoint : Phrase Java.Layout.Whatever True ['.'] := Java.Layout.phrase_mark (.inr rfl)
  have hbehind := hpoint.append ((phrase_name hname).append_cons hvalue (by decide))
    fun _ _ => trivial
  have hopening : Opening True ("this".toList ++
      '.' :: (name.toList ++ ' ' :: (['='] ++ ' ' :: text.toList))) := by
    refine hbehind.opening (by decide) (List.all_eq_true.1 (by decide)) (by decide)
      (by decide) fun next _ => ?_
    rw [List.append_assoc, List.append_assoc]
    exact Java.Layout.loose_point (Java.startsWithDigit_of_isSimpleName hname _)
  have hend : Ended ("this.".toList ++ name.toList ++ " = ".toList ++ text.toList) :=
    h.ended.append _
  refine regular_expression (c := 't') (by rw [htext]; exact hopening) (by rw [htext]; rfl)
    (by decide) ?_
  simpa [String.toList_append] using hend

/-! ## The free texts of the default configuration -/

/-- The author, the calls and the initial values of the default configuration, each once. -/
def defaultTexts : List String :=
  ["Entity Generator G3", "UserDetailsUtil.getDealerPartition()",
    "IdUtils.getSnowflakeIdWorker().nextId()", "IdUtils.getSnowflakeIdWorker().nextIdStr()",
    "CommonConstants.INTEGER_ZERO", "BigDecimal.ZERO"]

theorem mem_defaultTexts (h : text ∈ Config.default.freeTexts) : text ∈ defaultTexts := by
  have hall : ∀ text ∈ Config.default.freeTexts, text ∈ defaultTexts := by decide
  exact hall text h

theorem isValue_qualifiedName (h : isQualifiedName cs = true) (hend : Ended cs) : IsValue cs :=
  ⟨Java.phrase_qualifiedName h, hend⟩

theorem isValue_chain {method : List Char} (h : isQualifiedName cs = true)
    (hmethod : isSimpleName method = true) :
    IsValue (cs ++ ['(', ')'] ++ '.' :: method ++ ['(', ')']) := by
  have hcall : Phrase Loose True (cs ++ ['(', ')']) :=
    (isValue_call (Java.phrase_qualifiedName h) Java.Layout.phrase_nil).phrase
  exact isValue_call (phrase_member hcall hmethod) Java.Layout.phrase_nil

theorem isValue_words : IsValue "Entity Generator G3".toList := by
  have hword (w : String) (hne : w.toList ≠ []) (hw : w.toList.all isWordChar = true) :
      Phrase Loose True w.toList := phrase_word hne (List.all_eq_true.1 hw)
  have hthird := hword "G3" (by decide) (by decide)
  have hsecond := hword "Generator" (by decide) (by decide)
  have hfirst := hword "Entity" (by decide) (by decide)
  have hall := hfirst.append_cons (hsecond.append_cons hthird.blank (by decide)).blank (by decide)
  exact ⟨hall, '3', rfl, by decide, by decide⟩

theorem isValue_of_mem_freeTexts (h : text ∈ Config.default.freeTexts) : IsValue text.toList := by
  have hmem := mem_defaultTexts h
  simp only [defaultTexts, List.mem_cons, List.not_mem_nil, or_false] at hmem
  have hworker : isQualifiedName "IdUtils.getSnowflakeIdWorker".toList = true := by decide
  rcases hmem with rfl | rfl | rfl | rfl | rfl | rfl
  · exact isValue_words
  · have hname : isQualifiedName "UserDetailsUtil.getDealerPartition".toList = true := by
      decide
    exact isValue_call (Java.phrase_qualifiedName hname) Java.Layout.phrase_nil
  · have hmethod : isSimpleName "nextId".toList = true := by decide
    exact isValue_chain hworker hmethod
  · have hmethod : isSimpleName "nextIdStr".toList = true := by decide
    exact isValue_chain hworker hmethod
  · exact isValue_qualifiedName (by decide) ⟨'O', by decide, by decide, by decide⟩
  · exact isValue_qualifiedName (by decide) ⟨'O', by decide, by decide, by decide⟩

theorem trim_of_mem_freeTexts (h : text ∈ Config.default.freeTexts) :
    Text.mapChars Text.trim text = text := by
  have hall : ∀ text ∈ defaultTexts, Text.mapChars Text.trim text = text := by decide
  exact hall text (mem_defaultTexts h)

/-- The lines are a doc comment if the comment ends with its last line and is laid out already. -/
theorem isDoc_of_closes {lines : List String}
    (hopen : (Java.docText lines).take 2 = ['/', '*'])
    (hclose : Java.commentTail ((Java.docText lines).drop 2) =
      some ((Java.docText lines).drop 2, []))
    (hlaid : laidComment 0 (Java.docText lines) = Java.docText lines) : Java.IsDoc lines := by
  have htext : Java.docText lines = '/' :: '*' :: (Java.docText lines).drop 2 := by
    conv_lhs => rw [← List.take_append_drop 2 (Java.docText lines), hopen]
    rfl
  refine ⟨⟨'/', '*' :: (Java.docText lines).drop 2, htext, by decide, ?_⟩, hlaid⟩
  rw [List.append_nil, Java.lexeme_of_cuts (.blockComment hclose), ← htext]

theorem isDoc_of_mem_freeTexts (h : text ∈ Config.default.freeTexts) :
    Java.IsDoc ["@author " ++ text] := by
  have hall : ∀ text ∈ defaultTexts,
      (Java.docText ["@author " ++ text]).take 2 = ['/', '*'] ∧
      Java.commentTail ((Java.docText ["@author " ++ text]).drop 2) =
        some ((Java.docText ["@author " ++ text]).drop 2, []) ∧
      laidComment 0 (Java.docText ["@author " ++ text]) = Java.docText ["@author " ++ text] := by
    decide
  obtain ⟨hopen, hclose, hlaid⟩ := hall text (mem_defaultTexts h)
  exact isDoc_of_closes hopen hclose hlaid

end Units

end JpaScaffold
