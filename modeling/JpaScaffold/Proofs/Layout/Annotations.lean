import JpaScaffold.Proofs.Layout.Move
import JpaScaffold.Proofs.Layout.Pieces

/-!
# The extent of an annotation

An annotation goes on while points and words follow, and takes the arguments behind its name. Which
tokens belong to it depends on what they say, and behind its arguments on nothing that comes next.
-/
namespace JpaScaffold.Java.Layout

/-- The tokens go on with the name of an annotation in front of them, or are its arguments. -/
def attaches : List Token → Bool
  | dot :: name :: _ => dot.isPunct ['('] || (dot.isPunct ['.'] && name.isWord)
  | [t] => t.isPunct ['(']
  | [] => false

theorem argumentTail_getLast {inner : Nat} {ts a r : List Token}
    (h : argumentTail inner ts = some (a, r)) :
    ∃ x, a.getLast? = some x ∧ x.isPunct [')'] = true := by
  induction ts generalizing inner a r with
  | nil => simp [argumentTail] at h
  | cons t rest ih =>
    have push {m : Nat} (h : (argumentTail m rest).map (Prod.map (t :: ·) id) = some (a, r)) :
        ∃ x, a.getLast? = some x ∧ x.isPunct [')'] = true := by
      obtain ⟨⟨a', r'⟩, h', he⟩ := Option.map_eq_some_iff.1 h
      simp only [Prod.map_apply, id_eq, Prod.mk.injEq] at he
      obtain ⟨x, hx, hp⟩ := ih h'
      refine ⟨x, ?_, hp⟩
      rw [← he.1, List.getLast?_cons, hx]
      rfl
    unfold argumentTail at h
    split at h
    · exact push h
    · split at h
      · next hc =>
        split at h
        · simp only [Option.some.injEq, Prod.mk.injEq] at h
          exact ⟨t, by rw [← h.1]; rfl, hc⟩
        · exact push h
      · exact push h

theorem dottedTail_kinds (ts : List Token) : ∀ x ∈ (dottedTail ts).1, x.isComment = false := by
  fun_induction dottedTail ts with
  | case1 dot name rest h taken left hd ih =>
    rw [hd] at ih
    simp only [Bool.and_eq_true] at h
    intro x hx
    rcases List.mem_cons.1 hx with rfl | hx
    · simp [Token.isComment, (Token.isPunct_iff.1 h.1).1]
    · rcases List.mem_cons.1 hx with rfl | hx
      · simp [Token.isComment, eq_of_beq h.2]
      · exact ih x hx
  | case2 => simp
  | case3 => simp

theorem dottedTail_getLast {ts : List Token} {x : Token}
    (h : (dottedTail ts).1.getLast? = some x) : x.isWord = true := by
  fun_induction dottedTail ts with
  | case1 dot name rest hd taken left he ih =>
    rw [he] at ih
    simp only [Bool.and_eq_true] at hd
    cases taken with
    | nil =>
      obtain rfl : name = x := by simpa using h
      exact hd.2
    | cons t taken =>
      rw [List.getLast?_cons_cons, List.getLast?_cons_cons] at h
      exact ih h
  | case2 => cases h
  | case3 => cases h

theorem isWord_of_content {t t' : Token} (h : t.content = t'.content) : t.isWord = t'.isWord := by
  have hk : t.kind = t'.kind := congrArg Prod.fst h
  simp [Token.isWord, hk]

theorem attaches_of_contents {ts ts' : List Token} (h : SameContents ts ts') :
    attaches ts' = attaches ts := by
  cases ts with
  | nil => rw [sameContents_nil h]
  | cons t ts =>
    obtain ⟨u, us, rfl, hu, hus⟩ := sameContents_cons h
    cases ts with
    | nil =>
      rw [sameContents_nil hus]
      exact isPunct_of_content hu _
    | cons t' ts =>
      obtain ⟨u', us, rfl, hu', -⟩ := sameContents_cons hus
      simp only [attaches, isPunct_of_content hu, isWord_of_content hu']

theorem dottedTail_of_not_attaches {ts : List Token} (h : attaches ts = false) :
    dottedTail ts = ([], ts) := by
  rcases ts with _ | ⟨dot, _ | ⟨name, ts⟩⟩
  · rfl
  · rfl
  · simp only [attaches, Bool.or_eq_false_iff] at h
    rw [dottedTail, if_neg (by simp [h.2])]

theorem dottedTail_append_of_contents {ts a' : List Token} (ha : SameContents (dottedTail ts).1 a')
    (r' : List Token) :
    dottedTail (a' ++ r') = (a' ++ (dottedTail r').1, (dottedTail r').2) := by
  fun_induction dottedTail ts generalizing a' with
  | case1 dot name rest hd taken left he ih =>
    rw [he] at ih
    obtain ⟨u, us, rfl, hu, hus⟩ := sameContents_cons ha
    obtain ⟨v, vs, rfl, hv, hvs⟩ := sameContents_cons hus
    have hd' : (u.isPunct ['.'] && v.isWord) = true := by
      rw [isPunct_of_content hu, isWord_of_content hv]
      exact hd
    rw [List.cons_append, List.cons_append, dottedTail, if_pos hd', ih hvs]
    rfl
  | case2 =>
    rw [sameContents_nil ha]
    rfl
  | case3 =>
    rw [sameContents_nil ha]
    rfl

theorem dottedTail_of_contents {ts a' r' : List Token} (ha : SameContents (dottedTail ts).1 a')
    (hr : dottedTail r' = ([], r')) : dottedTail (a' ++ r') = (a', r') := by
  rw [dottedTail_append_of_contents ha, hr, List.append_nil]

/-- The arguments of an annotation end with their parenthesis. -/
theorem argumentTail_of_contents {inner : Nat} {ts a r a' : List Token}
    (h : argumentTail inner ts = some (a, r)) (ha : SameContents a a') (r' : List Token) :
    argumentTail inner (a' ++ r') = some (a', r') := by
  induction ts generalizing inner a r a' with
  | nil => cases h
  | cons t ts ih =>
    -- in all cases but the last parenthesis the rest of the arguments is read on
    have push {m : Nat} (h : (argumentTail m ts).map (Prod.map (t :: ·) id) = some (a, r)) :
        ∃ u us, a' = u :: us ∧ u.content = t.content ∧
          argumentTail m (us ++ r') = some (us, r') := by
      obtain ⟨⟨b, s⟩, hb, he⟩ := Option.map_eq_some_iff.1 h
      simp only [Prod.map_apply, id_eq, Prod.mk.injEq] at he
      obtain ⟨rfl, rfl⟩ := he
      obtain ⟨u, us, rfl, hu, hus⟩ := sameContents_cons ha
      exact ⟨u, us, rfl, hu, ih hb hus⟩
    unfold argumentTail at h
    split at h
    · next ho =>
      obtain ⟨u, us, rfl, hu, htail⟩ := push h
      unfold argumentTail
      simp only [List.cons_append, isPunct_of_content hu, if_pos ho, htail]
      rfl
    · next ho =>
      split at h
      · next hc =>
        cases inner with
        | zero =>
          simp only [Option.some.injEq, Prod.mk.injEq] at h
          rw [← h.1] at ha
          obtain ⟨u, us, rfl, hu, hus⟩ := sameContents_cons ha
          obtain rfl := sameContents_nil hus
          simp only [List.cons_append, argumentTail, isPunct_of_content hu, if_neg ho, if_pos hc]
          rfl
        | succ n =>
          obtain ⟨u, us, rfl, hu, htail⟩ := push h
          simp only [List.cons_append, argumentTail, isPunct_of_content hu, if_neg ho, if_pos hc,
            htail]
          rfl
      · next hc =>
        obtain ⟨u, us, rfl, hu, htail⟩ := push h
        unfold argumentTail
        simp only [List.cons_append, isPunct_of_content hu, if_neg ho, if_neg hc, htail]
        rfl

theorem dottedTail_left (ts : List Token) {dot name : Token} {rest : List Token}
    (h : (dottedTail ts).2 = dot :: name :: rest) :
    (dot.isPunct ['.'] && name.isWord) = false := by
  fun_induction dottedTail ts with
  | case1 _ _ _ _ _ _ he ih =>
    rw [he] at ih
    exact ih h
  | case2 _ _ _ hd =>
    cases h
    exact eq_false_of_ne_true hd
  | case3 ts hne =>
    obtain rfl : ts = dot :: name :: rest := h
    exact absurd rfl (hne dot name rest)

theorem attaches_dottedTail {ts : List Token}
    (h : ∀ t, (dottedTail ts).2.head? = some t → t.isPunct ['('] = false) :
    attaches (dottedTail ts).2 = false := by
  rcases he : (dottedTail ts).2 with _ | ⟨t, _ | ⟨u, rest⟩⟩
  · rfl
  · exact h t (by rw [he]; rfl)
  · have hparen := h t (by rw [he]; rfl)
    simp [attaches, hparen, dottedTail_left ts he]

/-- An annotation ends with its arguments, or where nothing attaches to its name. -/
theorem annotationTail_cases {ts a r : List Token} (h : annotationTail ts = some (a, r)) :
    (a = (dottedTail ts).1 ∧ r = (dottedTail ts).2 ∧ attaches r = false) ∨
      ∃ t rest as, (dottedTail ts).2 = t :: rest ∧ t.isPunct ['('] = true ∧
        argumentTail 0 rest = some (as, r) ∧ a = (dottedTail ts).1 ++ t :: as := by
  have hend : (∀ t, (dottedTail ts).2.head? = some t → t.isPunct ['('] = false) →
      attaches (dottedTail ts).2 = false := attaches_dottedTail
  unfold annotationTail at h
  split at h
  · next name t rest hs =>
    rw [hs] at hend ⊢
    split at h
    · next ht =>
      obtain ⟨⟨as, r'⟩, has, he⟩ := Option.map_eq_some_iff.1 h
      simp only [Prod.mk.injEq] at he
      obtain ⟨rfl, rfl⟩ := he
      exact .inr ⟨t, rest, as, rfl, ht, has, rfl⟩
    · next ht =>
      cases h
      refine .inl ⟨rfl, rfl, hend ?_⟩
      intro u hu
      cases hu
      exact eq_false_of_ne_true ht
  · next name hs =>
    rw [hs] at hend ⊢
    cases h
    exact .inl ⟨rfl, rfl, rfl⟩

theorem annotationTail_getLast {ts a r : List Token} (h : annotationTail ts = some (a, r)) :
    (∃ x, a.getLast? = some x ∧ x.isPunct [')'] = true) ∨
      (attaches r = false ∧ ∀ x, a.getLast? = some x → x.isWord = true) := by
  rcases annotationTail_cases h with ⟨rfl, -, hr⟩ | ⟨t, rest, as, -, -, has, rfl⟩
  · exact .inr ⟨hr, fun x => dottedTail_getLast⟩
  · obtain ⟨x, hx, hp⟩ := argumentTail_getLast has
    refine .inl ⟨x, ?_, hp⟩
    rw [List.getLast?_append_of_ne_nil _ (by simp), List.getLast?_cons, hx]
    rfl

/-- What says the same is an annotation again, unless something attaches to its name. -/
theorem annotationTail_of_contents {ts a r a' r' : List Token} (h : annotationTail ts = some (a, r))
    (ha : SameContents a a')
    (hr : (∀ x, a.getLast? = some x → x.isWord = true) → attaches r' = false) :
    annotationTail (a' ++ r') = some (a', r') := by
  rcases annotationTail_cases h with ⟨rfl, -, -⟩ | ⟨t, rest, as, -, ht, has, rfl⟩
  · have hr' := hr fun x => dottedTail_getLast
    have hd := dottedTail_of_contents ha (dottedTail_of_not_attaches hr')
    unfold annotationTail
    rw [hd]
    cases r' with
    | nil => simp
    | cons u us =>
      have hu : u.isPunct ['('] = false := by
        cases us with
        | nil => exact hr'
        | cons v vs =>
          simp only [attaches, Bool.or_eq_false_iff] at hr'
          exact hr'.1
      simp [hu]
  · -- the parenthesis of the arguments ends the name, and they end by themselves
    rw [SameContents, List.map_append, List.map_eq_append_iff] at ha
    obtain ⟨name', args', rfl, hname, hargs⟩ := ha
    obtain ⟨u, us, rfl, hu, hus⟩ := sameContents_cons hargs
    have hparen : u.isPunct ['('] = true := by rw [isPunct_of_content hu, ht]
    have hstop : dottedTail (u :: us ++ r') = ([], u :: us ++ r') := by
      have hdot := isPunct_disjoint (b := ['.']) hparen (by decide)
      cases hrest : us ++ r' with
      | nil => rw [List.cons_append, hrest]; rfl
      | cons v vs => rw [List.cons_append, hrest, dottedTail, if_neg (by simp [hdot])]
    unfold annotationTail
    rw [List.append_assoc, dottedTail_of_contents hname hstop]
    simp only [List.cons_append, hparen, if_true, argumentTail_of_contents has hus]
    rfl

theorem dottedTail_head {ts cs : List Token} {c : Token} (h : (dottedTail ts).1 = c :: cs) :
    c.isPunct ['.'] = true := by
  unfold dottedTail at h
  split at h
  · split at h
    · next hd =>
      cases h
      exact (Bool.and_eq_true_iff.1 hd).1
    · cases h
  · cases h

/-- A name takes what attaches to it into its annotation. -/
theorem annotationTail_of_attaches {ts a r a' b taken left : List Token}
    (h : annotationTail ts = some (a, r)) (hw : ∀ x, a.getLast? = some x → x.isWord = true)
    (ha : SameContents a a') (hb : attaches b = true)
    (ht : annotationTail (a' ++ b) = some (taken, left)) :
    ∃ c cs, taken = a' ++ c :: cs ∧ (c.isPunct ['.'] = true ∨ c.isPunct ['('] = true) := by
  obtain rfl : a = (dottedTail ts).1 := by
    rcases annotationTail_cases h with ⟨ha, -, -⟩ | ⟨t, rest, as, -, -, has, rfl⟩
    · exact ha
    · obtain ⟨x, hx, hp⟩ := argumentTail_getLast has
      have hword := hw x (by
        rw [List.getLast?_append_of_ne_nil _ (by simp), List.getLast?_cons, hx]
        rfl)
      simp [Token.isWord, (Token.isPunct_iff.1 hp).1] at hword
  have hd := dottedTail_append_of_contents ha b
  rcases annotationTail_cases ht with ⟨rfl, rfl, hleft⟩ | ⟨t, rest, as, -, hp, -, rfl⟩
  · rw [hd] at hleft ⊢
    cases hc : (dottedTail b).1 with
    | nil =>
      -- the name would end in front of what attaches to it
      have happ := dottedTail_append b
      rw [hc, List.nil_append] at happ
      simp [happ, hb] at hleft
    | cons c cs => exact ⟨c, cs, rfl, .inl (dottedTail_head hc)⟩
  · rw [hd]
    cases hc : (dottedTail b).1 with
    | nil => exact ⟨t, as, by simp, .inr hp⟩
    | cons c cs => exact ⟨c, cs ++ t :: as, by simp, .inl (dottedTail_head hc)⟩

end JpaScaffold.Java.Layout
