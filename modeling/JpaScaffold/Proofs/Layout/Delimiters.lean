import JpaScaffold.Proofs.Layout.Annotations
import JpaScaffold.Proofs.Layout.Growth
import JpaScaffold.Proofs.Layout.Held

/-!
# Nested delimiters

A layout keeps the brackets of the statement that is being read and the blocks around it, and takes
an annotation as a whole, looking at its parentheses only. Its state therefore says which brackets
are open outside of annotations; what an annotation leaves open is not seen.
-/
namespace JpaScaffold.Java.Layout

open State (opens? closes?)

/-- The brackets among the tokens are properly nested. -/
inductive WellNested : List Token → Prop
  | nil : WellNested []
  | other {t : Token} {ts : List Token} (ho : opens? t = none) (hc : closes? t = none)
      (h : WellNested ts) : WellNested (t :: ts)
  | group {l r : Token} {b : Bracket} {inner ts : List Token} (hl : opens? l = some b)
      (hr : closes? r = some b) (hinner : WellNested inner) (h : WellNested ts) :
      WellNested (l :: (inner ++ r :: ts))

/-- The brackets open behind a token, innermost first. -/
def nest (brackets : List Bracket) (t : Token) : Option (List Bracket) :=
  match opens? t, closes? t with
  | some b, _ => some (b :: brackets)
  | none, some b =>
    match brackets with
    | opened :: rest => if opened = b then some rest else none
    | [] => none
  | none, none => some brackets

def nestAll (brackets : List Bracket) (ts : List Token) : Option (List Bracket) :=
  ts.foldlM nest brackets

variable {S S' : List Bracket} {t : Token} {ts : List Token} {b : Bracket}

@[simp] theorem nestAll_nil (S : List Bracket) : nestAll S [] = some S := rfl

theorem nestAll_cons (S : List Bracket) (t : Token) (ts : List Token) :
    nestAll S (t :: ts) = (nest S t).bind fun S => nestAll S ts := List.foldlM_cons

theorem nestAll_append (S : List Bracket) (ts us : List Token) :
    nestAll S (ts ++ us) = (nestAll S ts).bind fun S => nestAll S us := List.foldlM_append

theorem nest_of_opens (h : opens? t = some b) (S : List Bracket) : nest S t = some (b :: S) := by
  simp [nest, h]

theorem closes_of_opens (h : opens? t = some b) : closes? t = none := by
  unfold State.opens? at h
  unfold State.closes?
  split at h
  · next hp =>
    rw [if_neg, if_neg, if_neg] <;> simp [isPunct_disjoint hp]
  · split at h
    · next hp =>
      rw [if_neg, if_neg, if_neg] <;> simp [isPunct_disjoint hp]
    · split at h
      · next hp =>
        rw [if_neg, if_neg, if_neg] <;> simp [isPunct_disjoint hp]
      · cases h

theorem opens_of_closes (h : closes? t = some b) : opens? t = none := by
  cases ho : opens? t with
  | none => rfl
  | some b' =>
    rw [closes_of_opens ho] at h
    cases h

theorem nest_of_closes (h : closes? t = some b) (S : List Bracket) : nest (b :: S) t = some S := by
  simp [nest, h, opens_of_closes h]

theorem nest_of_other (ho : opens? t = none) (hc : closes? t = none) (S : List Bracket) :
    nest S t = some S := by
  simp [nest, ho, hc]

/-- What a token does to the brackets: it opens one, closes the innermost one, or is no bracket. -/
theorem nest_cases (h : nest S t = some S') :
    (∃ b, opens? t = some b ∧ S' = b :: S) ∨ (∃ b, closes? t = some b ∧ S = b :: S') ∨
      (opens? t = none ∧ closes? t = none ∧ S' = S) := by
  unfold nest at h
  split at h
  · next ho => exact .inl ⟨_, ho, by simpa using h.symm⟩
  · next b ho hc =>
    split at h
    · split at h
      · next hb =>
        obtain rfl : _ = S' := by simpa using h
        exact .inr (.inl ⟨b, hc, by rw [hb]⟩)
      · cases h
    · cases h
  · next ho hc => exact .inr (.inr ⟨ho, hc, by simpa using h.symm⟩)

/-! ## The brackets of nested tokens -/

theorem WellNested.nestAll_eq (h : WellNested ts) (S : List Bracket) : nestAll S ts = some S := by
  induction h generalizing S with
  | nil => rfl
  | other ho hc _ ih => rw [nestAll_cons, nest_of_other ho hc, Option.bind_some, ih]
  | group hl hr _ _ ihinner ih =>
    rw [nestAll_cons, nest_of_opens hl, Option.bind_some, nestAll_append, ihinner,
      Option.bind_some, nestAll_cons, nest_of_closes hr, Option.bind_some, ih]

/-- If the innermost bracket is closed, it is closed behind nested tokens. -/
theorem exists_closing (h : nestAll (b :: S) ts = some S') (hlen : S'.length ≤ S.length) :
    ∃ inner r rest, ts = inner ++ r :: rest ∧ closes? r = some b ∧ WellNested inner ∧
      nestAll S rest = some S' := by
  induction hn : ts.length using Nat.strong_induction_on generalizing b S ts with
  | _ n ih =>
  subst hn
  cases ts with
  | nil =>
    obtain rfl : b :: S = S' := by simpa using h
    simp at hlen
  | cons t ts =>
    rw [nestAll_cons] at h
    obtain ⟨T, hT, hrest⟩ := Option.bind_eq_some_iff.1 h
    rcases nest_cases hT with ⟨b', ho, rfl⟩ | ⟨b', hc, he⟩ | ⟨ho, hc, rfl⟩
    · -- the bracket that opens here is closed first
      obtain ⟨inner, r, rest, rfl, hr, hinner, hrest⟩ :=
        ih _ (by simp) hrest (hlen.trans (Nat.le_succ _)) rfl
      obtain ⟨inner', r', rest', rfl, hr', hinner', hrest'⟩ :=
        ih rest.length (by simp; omega) hrest hlen rfl
      exact ⟨t :: (inner ++ r :: inner'), r', rest', by simp, hr', .group ho hr hinner hinner',
        hrest'⟩
    · cases he
      exact ⟨[], t, ts, rfl, hc, .nil, hrest⟩
    · obtain ⟨inner, r, rest, rfl, hr, hinner, hrest⟩ := ih _ (by simp) hrest hlen rfl
      exact ⟨t :: inner, r, rest, rfl, hr, .other ho hc hinner, hrest⟩

/-- Tokens are properly nested if they close all brackets that they open, and no others. -/
theorem wellNested_iff : WellNested ts ↔ nestAll [] ts = some [] := by
  refine ⟨fun h => h.nestAll_eq [], fun h => ?_⟩
  induction hn : ts.length using Nat.strong_induction_on generalizing ts with
  | _ n ih =>
  subst hn
  cases ts with
  | nil => exact .nil
  | cons t ts =>
    rw [nestAll_cons] at h
    obtain ⟨T, hT, hrest⟩ := Option.bind_eq_some_iff.1 h
    rcases nest_cases hT with ⟨b, ho, rfl⟩ | ⟨b, hc, he⟩ | ⟨ho, hc, rfl⟩
    · obtain ⟨inner, r, rest, rfl, hr, hinner, hrest⟩ := exists_closing hrest (Nat.le_refl _)
      exact .group ho hr hinner (ih _ (by simp; omega) hrest rfl)
    · cases he
    · exact .other ho hc (ih _ (Nat.lt_succ_self _) hrest rfl)

/-! ## Annotations -/

def isParen (t : Token) : Bool := t.isPunct ['('] || t.isPunct [')']

theorem opens_paren (h : t.isPunct ['('] = true) : opens? t = some .paren := by
  simp [State.opens?, h]

theorem closes_paren (h : t.isPunct [')'] = true) : closes? t = some .paren := by
  simp [State.closes?, h]

theorem opens_ne_paren (h : t.isPunct ['('] = false) : opens? t ≠ some .paren := by
  unfold State.opens?
  rw [if_neg (by simp [h])]
  split
  · simp
  · split <;> simp

theorem closes_ne_paren (h : t.isPunct [')'] = false) : closes? t ≠ some .paren := by
  unfold State.closes?
  rw [if_neg (by simp [h])]
  split
  · simp
  · split <;> simp

/-- The tokens up to the parenthesis that closes the arguments of an annotation, with so many
parentheses open inside. -/
inductive ClosesArguments : Nat → List Token → Prop
  | last {t : Token} (ht : t.isPunct [')'] = true) : ClosesArguments 0 [t]
  | opens {n : Nat} {t : Token} {ts : List Token} (ht : t.isPunct ['('] = true)
      (h : ClosesArguments (n + 1) ts) : ClosesArguments n (t :: ts)
  | closes {n : Nat} {t : Token} {ts : List Token} (ht : t.isPunct [')'] = true)
      (h : ClosesArguments n ts) : ClosesArguments (n + 1) (t :: ts)
  | other {n : Nat} {t : Token} {ts : List Token} (ho : t.isPunct ['('] = false)
      (hc : t.isPunct [')'] = false) (h : ClosesArguments n ts) : ClosesArguments n (t :: ts)

theorem closesArguments_of_argumentTail {inner : Nat} {a r : List Token}
    (h : argumentTail inner ts = some (a, r)) : ClosesArguments inner a := by
  induction ts generalizing inner a with
  | nil => cases h
  | cons t ts ih =>
    have push {m : Nat} (h : (argumentTail m ts).map (Prod.map (t :: ·) id) = some (a, r)) :
        ∃ a', argumentTail m ts = some (a', r) ∧ t :: a' = a := by
      obtain ⟨⟨a', r'⟩, h', he⟩ := Option.map_eq_some_iff.1 h
      simp only [Prod.map_apply, id_eq, Prod.mk.injEq] at he
      exact ⟨a', he.2 ▸ h', he.1⟩
    unfold argumentTail at h
    split at h
    · next ho =>
      obtain ⟨a', ha', rfl⟩ := push h
      exact .opens ho (ih ha')
    · next ho =>
      split at h
      · next hc =>
        cases inner with
        | zero =>
          obtain ⟨rfl, -⟩ : [t] = a ∧ ts = r := by simpa using h
          exact .last hc
        | succ n =>
          obtain ⟨a', ha', rfl⟩ := push h
          exact .closes hc (ih ha')
      · next hc =>
        obtain ⟨a', ha', rfl⟩ := push h
        exact .other (eq_false_of_ne_true ho) (eq_false_of_ne_true hc) (ih ha')

theorem nest_above {above : List Bracket} (ho : t.isPunct ['('] = false)
    (hc : t.isPunct [')'] = false) (h : nest (above ++ .paren :: S) t = some S') :
    ∃ above', S' = above' ++ .paren :: S ∧ above'.count .paren = above.count .paren ∧
      nest (above ++ [.paren]) t = some (above' ++ [.paren]) := by
  rcases nest_cases h with ⟨b, hb, rfl⟩ | ⟨b, hb, he⟩ | ⟨hno, hnc, rfl⟩
  · have hne : b ≠ .paren := fun he => opens_ne_paren ho (he ▸ hb)
    exact ⟨b :: above, rfl, by simp [hne], nest_of_opens hb _⟩
  · have hne : b ≠ .paren := fun he => closes_ne_paren hc (he ▸ hb)
    cases above with
    | nil =>
      rw [List.nil_append, List.cons.injEq] at he
      exact absurd he.1.symm hne
    | cons u above =>
      rw [List.cons_append, List.cons.injEq] at he
      obtain ⟨rfl, rfl⟩ := he
      exact ⟨above, rfl, by simp [hne], nest_of_closes hb _⟩
  · exact ⟨above, rfl, rfl, nest_of_other hno hnc _⟩

/-- A closing parenthesis can be read where one was opened last. -/
theorem eq_of_nest_paren (ht : t.isPunct [')'] = true) (h : nest S t = some S') :
    S = .paren :: S' := by
  have hc := closes_paren ht
  rcases nest_cases h with ⟨b, ho, -⟩ | ⟨b, hb, he⟩ | ⟨-, hno, -⟩
  · rw [opens_of_closes hc] at ho
    cases ho
  · obtain rfl : b = .paren := by simpa [hc] using hb.symm
    exact he
  · rw [hc] at hno
    cases hno

/-- The arguments of an annotation close the parenthesis in front of them and leave open what was
open before it, if their brackets match at all. -/
theorem ClosesArguments.nestAll_eq {n : Nat} (h : ClosesArguments n ts) {above : List Bracket}
    (hcount : above.count .paren = n) (hn : nestAll (above ++ .paren :: S) ts = some S') :
    S' = S ∧ nestAll (above ++ [.paren]) ts = some [] := by
  induction h generalizing above with
  | @last t ht =>
    rw [nestAll_cons] at hn ⊢
    obtain ⟨T, hT, hrest⟩ := Option.bind_eq_some_iff.1 hn
    obtain rfl : T = S' := by simpa using hrest
    have he := eq_of_nest_paren ht hT
    cases above with
    | nil =>
      cases he
      exact ⟨rfl, by rw [List.nil_append, nest_of_closes (closes_paren ht)]; rfl⟩
    | cons u above =>
      -- a parenthesis above the one in front of the arguments would be counted
      rw [List.cons_append, List.cons.injEq] at he
      simp [he.1] at hcount
  | @opens n t ts ht _ ih =>
    have ho := opens_paren ht
    rw [nestAll_cons, nest_of_opens ho, Option.bind_some] at hn ⊢
    have hcount' : (Bracket.paren :: above).count .paren = n + 1 := by simp [hcount]
    exact ih hcount' hn
  | @closes n t ts ht _ ih =>
    rw [nestAll_cons] at hn ⊢
    obtain ⟨T, hT, hrest⟩ := Option.bind_eq_some_iff.1 hn
    have he := eq_of_nest_paren ht hT
    cases above with
    | nil => cases hcount
    | cons u above =>
      rw [List.cons_append, List.cons.injEq] at he
      obtain ⟨rfl, rfl⟩ := he
      rw [List.cons_append, nest_of_closes (closes_paren ht), Option.bind_some]
      exact ih (by simpa using hcount) hrest
  | @other n t ts ho hc _ ih =>
    rw [nestAll_cons] at hn ⊢
    obtain ⟨T, hT, hrest⟩ := Option.bind_eq_some_iff.1 hn
    obtain ⟨above', rfl, hcount', hnest⟩ := nest_above ho hc hT
    rw [hnest, Option.bind_some]
    exact ih (hcount'.trans hcount) hrest

theorem ClosesArguments.nestAll_parens {n : Nat} (h : ClosesArguments n ts) :
    nestAll (List.replicate (n + 1) .paren) (ts.filter isParen) = some [] := by
  induction h with
  | @last t ht =>
    have hp : isParen t = true := by simp [isParen, ht]
    have hlast : nest (List.replicate (0 + 1) .paren) t = some [] :=
      nest_of_closes (closes_paren ht) []
    rw [List.filter_cons_of_pos hp, nestAll_cons, hlast]
    rfl
  | @opens n t ts ht _ ih =>
    have hp : isParen t = true := by simp [isParen, ht]
    rwa [List.filter_cons_of_pos hp, nestAll_cons, nest_of_opens (opens_paren ht), Option.bind_some]
  | @closes n t ts ht _ ih =>
    have hp : isParen t = true := by simp [isParen, ht]
    rwa [List.filter_cons_of_pos hp, nestAll_cons, List.replicate_succ,
      nest_of_closes (closes_paren ht), Option.bind_some]
  | @other n t ts ho hc _ ih =>
    have hp : ¬ isParen t = true := by simp [isParen, ho, hc]
    rwa [List.filter_cons_of_neg hp]

/-- The token is no bracket. -/
def IsNeutral (t : Token) : Prop := opens? t = none ∧ closes? t = none

theorem isNeutral_of_kind (h : t.kind ≠ .punct) : IsNeutral t := by
  have hp (text : List Char) : t.isPunct text = false :=
    eq_false_of_ne_true fun hp => h (Token.isPunct_iff.1 hp).1
  simp [IsNeutral, State.opens?, State.closes?, hp]

theorem isNeutral_of_isWord (h : t.isWord = true) : IsNeutral t :=
  isNeutral_of_kind fun hk => by simp [Token.isWord, hk] at h

theorem isNeutral_of_isPunct {text : List Char} (h : t.isPunct text = true)
    (hne : text ∉ [['('], [')'], ['['], [']'], ['{'], ['}']]) : IsNeutral t := by
  have hp {mark : List Char} (hm : mark ∈ [['('], [')'], ['['], [']'], ['{'], ['}']]) :
      t.isPunct mark = false :=
    isPunct_disjoint h fun he => hne (he ▸ hm)
  simp [IsNeutral, State.opens?, State.closes?, hp]

theorem nestAll_of_isNeutral (h : ∀ u ∈ ts, IsNeutral u) (S : List Bracket) :
    nestAll S ts = some S := by
  have hnested : WellNested ts := by
    induction ts with
    | nil => exact .nil
    | cons t ts ih =>
      obtain ⟨ht, hts⟩ := List.forall_mem_cons.1 h
      exact .other ht.1 ht.2 (ih hts)
  exact hnested.nestAll_eq S

theorem isNeutral_dottedTail (ts : List Token) : ∀ u ∈ (dottedTail ts).1, IsNeutral u := by
  fun_induction dottedTail ts with
  | case1 dot name rest hd taken left he ih =>
    rw [he] at ih
    simp only [Bool.and_eq_true] at hd
    exact List.forall_mem_cons.2 ⟨isNeutral_of_isPunct hd.1 (by decide),
      List.forall_mem_cons.2 ⟨isNeutral_of_isWord hd.2, ih⟩⟩
  | case2 => exact List.forall_mem_nil _
  | case3 => exact List.forall_mem_nil _

theorem isNeutral_of_startsAnnotation {name : Token} {more : List Token}
    (h : startsAnnotation t (name :: more) = true) : IsNeutral t ∧ IsNeutral name := by
  simp only [ startsAnnotation, Bool.and_eq_true] at h
  exact ⟨isNeutral_of_isPunct h.1.1 (by decide), isNeutral_of_isWord h.1.2⟩

/-- What an annotation is made of: tokens that are no brackets, and arguments behind them. -/
theorem exists_arguments {more tail rest : List Token} {name : Token}
    (ha : startsAnnotation t (name :: more) = true) (ht : annotationTail more = some (tail, rest)) :
    ∃ front, (∀ u ∈ front, IsNeutral u) ∧
      (t :: name :: tail = front ∨ ∃ l args, t :: name :: tail = front ++ l :: args ∧
        l.isPunct ['('] = true ∧ ClosesArguments 0 args) := by
  obtain ⟨ht', hname⟩ := isNeutral_of_startsAnnotation ha
  have hfront : ∀ u ∈ t :: name :: (dottedTail more).1, IsNeutral u :=
    List.forall_mem_cons.2 ⟨ht', List.forall_mem_cons.2 ⟨hname, isNeutral_dottedTail more⟩⟩
  refine ⟨_, hfront, ?_⟩
  rcases annotationTail_cases ht with ⟨rfl, -, -⟩ | ⟨l, left, args, -, hl, hargs, rfl⟩
  · exact .inl rfl
  · exact .inr ⟨l, args, rfl, hl, closesArguments_of_argumentTail hargs⟩

/-- An annotation leaves open what was open before it if it is properly nested, and otherwise holds
brackets that do not match. -/
theorem nestAll_annotation {more tail rest : List Token} {name : Token}
    (ha : startsAnnotation t (name :: more) = true) (ht : annotationTail more = some (tail, rest))
    (h : nestAll S (t :: name :: tail) = some S') : S' = S ∧ WellNested (t :: name :: tail) := by
  obtain ⟨front, hfront, he⟩ := exists_arguments ha ht
  rw [wellNested_iff]
  rcases he with he | ⟨l, args, he, hl, hargs⟩
  · rw [he, nestAll_of_isNeutral hfront] at h ⊢
    exact ⟨(Option.some.inj h).symm, rfl⟩
  · have ho := opens_paren hl
    rw [he, nestAll_append, nestAll_of_isNeutral hfront, Option.bind_some, nestAll_cons,
      nest_of_opens ho, Option.bind_some] at h ⊢
    have hnone : ([] : List Bracket).count .paren = 0 := rfl
    exact hargs.nestAll_eq hnone h

theorem wellNested_parens {more tail rest : List Token} {name : Token}
    (ha : startsAnnotation t (name :: more) = true) (ht : annotationTail more = some (tail, rest)) :
    WellNested ((t :: name :: tail).filter isParen) := by
  obtain ⟨front, hfront, he⟩ := exists_arguments ha ht
  have hnone : front.filter isParen = [] := by
    refine List.filter_eq_nil_iff.2 fun u hu hp => ?_
    obtain ⟨ho, hc⟩ := hfront u hu
    rcases Bool.or_eq_true_iff.1 hp with hp | hp
    · rw [opens_paren hp] at ho
      cases ho
    · rw [closes_paren hp] at hc
      cases hc
  rw [wellNested_iff]
  rcases he with he | ⟨l, args, he, hl, hargs⟩
  · rw [he, hnone]
    rfl
  · have hp : isParen l = true := by simp [isParen, hl]
    rw [he, List.filter_append, hnone, List.nil_append, List.filter_cons_of_pos hp, nestAll_cons,
      nest_of_opens (opens_paren hl), Option.bind_some]
    exact hargs.nestAll_parens

/-! ## The brackets open in a layout -/

/-- The brackets open in a state: those of the statement that is being read, and the blocks around
it. -/
def State.openBrackets (s : State) : List Bracket :=
  s.nesting.map Prod.fst ++ List.replicate s.outer.length .curly

variable {o : Options} {s : State}

theorem openBrackets_of_nesting (h : s.nesting = []) :
    s.openBrackets = List.replicate s.outer.length .curly := by
  rw [State.openBrackets, h]
  rfl

theorem openBrackets_lineComment (u : Token) (previous : Option Token) :
    (s.lineComment o u previous).openBrackets = s.openBrackets := by
  rw [lineComment_eq]
  split
  · rfl
  · split
    · rfl
    · split
      · rfl
      · rw [decorate_eq]
        rfl

theorem openBrackets_decorate (lines : List (List Char)) :
    (s.decorate o lines).openBrackets = s.openBrackets := by
  rw [decorate_eq]
  rfl

theorem openBrackets_emitMember (lines : List (List Char)) (field : Bool) :
    (s.emitMember o lines field).openBrackets = s.openBrackets := by
  rw [emitMember_eq]
  rfl

theorem openBrackets_emptyBlock (next : Option Token) :
    (s.emptyBlock o next).openBrackets = s.openBrackets := by
  unfold State.emptyBlock
  split
  · rfl
  · exact openBrackets_emitMember _ _

theorem openBrackets_endStatement : (s.endStatement o).openBrackets = s.openBrackets := by
  rw [endStatement_eq]
  split
  · rfl
  · exact openBrackets_emitMember _ _

theorem openBrackets_openBlock (hn : s.nesting = []) (line : Nat) :
    (s.openBlock o line).openBrackets = .curly :: s.openBrackets := by
  have hnesting : (s.openBlock o line).nesting = [] := by
    simp [State.openBlock, emitMember_eq, State.clearStatement, hn]
  have houter : (s.openBlock o line).outer.length = s.outer.length + 1 := by
    simp [State.openBlock, State.clearStatement]
  rw [openBrackets_of_nesting hnesting, openBrackets_of_nesting hn, houter, List.replicate_succ]

theorem openBrackets_closeBlock {s' : State} {line : Nat} {next : Option Token}
    (hn : s.nesting = []) (h : s.closeBlock o line next = .ok s') :
    s.openBrackets = .curly :: s'.openBrackets := by
  obtain ⟨around, outer, hout, -, rfl⟩ := closeBlock_eq_ok.1 h
  have hsettled : (s.settled o).nesting = [] := by
    unfold State.settled
    split
    · exact hn
    · rw [emitMember_eq]
      exact hn
  have hleft : ((s.settled o).left o around outer next).openBrackets =
      List.replicate outer.length .curly := by
    unfold State.left
    split
    · exact openBrackets_of_nesting hsettled
    · exact openBrackets_of_nesting hsettled
  rw [openBrackets_of_nesting hn, hleft, hout, List.length_cons, List.replicate_succ]

theorem nest_pushToken {s' : State} (h : s.pushToken t = .ok s') :
    nest s.openBrackets t = some s'.openBrackets := by
  unfold State.pushToken at h
  unfold State.openBrackets
  split at h
  · next ho =>
    cases h
    exact nest_of_opens ho _
  · next hc =>
    split at h
    · next hnest =>
      split at h
      · next hb =>
        cases h
        rw [hnest, List.map_cons, List.cons_append, hb]
        exact nest_of_closes hc _
      · cases h
    · cases h
  · next ho hc =>
    cases h
    exact nest_of_other ho hc _

/-! ## Runs -/

/-- The step reads an annotation as a whole. -/
def Visit.readsAnnotation (v : Visit) : Bool :=
  match v.taken with
  | t :: _ :: _ => t.isPunct ['@']
  | _ => false

/-- The tokens of a step whose brackets the layout looks at: of an annotation, the parentheses. -/
def Visit.watched (v : Visit) : List Token :=
  if v.readsAnnotation then v.taken.filter isParen else v.taken

variable {previous : Option Token} {rest taken : List Token} {p : Progress}

/-- What a step does to the brackets. An annotation leaves the state as it is, whatever is in it;
every other step opens and closes brackets as its tokens do. -/
theorem Move.nestAll (hm : Move o s previous t rest p) (ht : t :: rest = taken ++ p.rest) :
    (Visit.readsAnnotation ⟨s, taken, p.rest⟩ = true ∧ p.state.openBrackets = s.openBrackets ∧
        WellNested (taken.filter isParen) ∧
        ∀ S S', Layout.nestAll S taken = some S' → S' = S ∧ WellNested taken) ∨
      (Visit.readsAnnotation ⟨s, taken, p.rest⟩ = false ∧
        Layout.nestAll s.openBrackets taken = some p.state.openBrackets) := by
  have single {s' : State} {previous' : Option Token} (hp : p = ⟨s', previous', rest⟩)
      (hnest : nest s.openBrackets t = some s'.openBrackets) :
      Visit.readsAnnotation ⟨s, taken, p.rest⟩ = false ∧
        Layout.nestAll s.openBrackets taken = some p.state.openBrackets := by
    subst hp
    obtain rfl : [t] = taken := List.append_cancel_right ht
    exact ⟨rfl, by rw [nestAll_cons, hnest]; rfl⟩
  cases hm with
  | lineComment hk =>
    obtain ⟨ho, hc⟩ := isNeutral_of_kind (t := t) (by simp [hk])
    exact .inr (single rfl (by rw [nest_of_other ho hc, openBrackets_lineComment]))
  | blockComment hk =>
    obtain ⟨ho, hc⟩ := isNeutral_of_kind (t := t) (by simp [hk])
    exact .inr (single rfl (by rw [nest_of_other ho hc, openBrackets_decorate]))
  | @decoration name more tail rest' hr hs ha htail =>
    subst hr
    have hread : (t :: name :: tail) ++ rest' = taken ++ rest' := by
      rw [← ht, List.cons_append, List.cons_append, annotationTail_append htail]
    obtain rfl := List.append_cancel_right hread
    exact .inl ⟨startsAnnotation_isPunct ha, openBrackets_decorate _, wellNested_parens ha htail,
      fun _ _ => nestAll_annotation ha htail⟩
  | @emptyBlock next rest' hr ho hn ha hc =>
    subst hr
    have hread : [t, next] ++ rest' = taken ++ rest' := ht
    obtain rfl := List.append_cancel_right hread
    have hat : t.isPunct ['@'] = false := isPunct_disjoint ho (by decide)
    have hopen : opens? t = some .curly := by
      simp [State.opens?, ho, isPunct_disjoint ho]
    have hclose : closes? next = some .curly := by
      simp [State.closes?, hc, isPunct_disjoint hc]
    refine .inr ⟨hat, ?_⟩
    rw [nestAll_cons, nest_of_opens hopen, Option.bind_some, nestAll_cons, nest_of_closes hclose,
      openBrackets_emptyBlock]
    rfl
  | openBlock ho hn =>
    have hopen : opens? t = some .curly := by
      simp [State.opens?, ho, isPunct_disjoint ho]
    exact .inr (single rfl (by rw [nest_of_opens hopen, openBrackets_openBlock hn]))
  | closeBlock hc hn hs =>
    have hclose : closes? t = some .curly := by
      simp [State.closes?, hc, isPunct_disjoint hc]
    exact .inr (single rfl (by rw [openBrackets_closeBlock hn hs, nest_of_closes hclose]))
  | statement hsemi hn =>
    obtain ⟨ho, hc⟩ := isNeutral_of_isPunct (t := t) hsemi (by decide)
    exact .inr (single rfl (by rw [nest_of_other ho hc, openBrackets_endStatement]; rfl))
  | token _ _ _ _ _ _ hp => exact .inr (single rfl (nest_pushToken hp))

/-- Over a run, the brackets of all tokens lead from those open before to those open behind if and
only if every annotation is properly nested. -/
theorem Trace.nestAll_iff {s' : State} (h : Trace o s previous ts s') :
    nestAll s.openBrackets ts = some s'.openBrackets ↔
      ∀ v ∈ visits o s previous ts, v.readsAnnotation = true → WellNested v.taken := by
  induction h with
  | nil => simp
  | @cons s s' previous t rest p hm htrace ih =>
    obtain ⟨taken, htaken, -, -⟩ := exists_taken hm
    rw [visits_cons hm htaken, List.forall_mem_cons, ← ih, htaken, nestAll_append]
    rcases hm.nestAll htaken with ⟨hread, hopen, -, hnested⟩ | ⟨hread, hstep⟩
    · rw [hopen]
      constructor
      · intro hall
        obtain ⟨S, hS, hrest⟩ := Option.bind_eq_some_iff.1 hall
        obtain ⟨rfl, hinner⟩ := hnested _ _ hS
        exact ⟨fun _ => hinner, hrest⟩
      · rintro ⟨hinner, hrest⟩
        rw [(hinner hread).nestAll_eq, Option.bind_some, hrest]
    · rw [hstep, Option.bind_some, hread]
      exact (and_iff_right fun hr => absurd hr (by decide)).symm

/-- Over a run, the brackets that the layout looks at lead from those open before to those open
behind. -/
theorem Trace.nestAll_watched {s' : State} (h : Trace o s previous ts s') :
    nestAll s.openBrackets ((visits o s previous ts).flatMap Visit.watched) =
      some s'.openBrackets := by
  induction h with
  | nil => simp
  | @cons s s' previous t rest p hm htrace ih =>
    obtain ⟨taken, htaken, -, -⟩ := exists_taken hm
    rw [visits_cons hm htaken, List.flatMap_cons, nestAll_append, Visit.watched]
    rcases hm.nestAll htaken with ⟨hread, hopen, hparens, -⟩ | ⟨hread, hstep⟩
    · rw [hread, if_pos rfl, hparens.nestAll_eq, Option.bind_some, ← hopen, ih]
    · rw [hread, if_neg (by decide), hstep, Option.bind_some, ih]

/-- Every layout that succeeds has read properly nested brackets, apart from the square brackets and
the braces in annotations: its source is properly nested if and only if every annotation is. -/
theorem wellNested_of_format {source text : List Char} (h : format o source = .ok text) :
    ∃ ts, tokenize source = .ok ts ∧
      WellNested ((visits o {} none ts).flatMap Visit.watched) ∧
      (WellNested ts ↔
        ∀ v ∈ visits o {} none ts, v.readsAnnotation = true → WellNested v.taken) := by
  obtain ⟨ts, s', ht, htrace, hfinish⟩ := format_eq_ok.1 h
  obtain ⟨-, hn, hout, -⟩ := finish_eq_ok.1 hfinish
  have hend : s'.openBrackets = [] := by rw [openBrackets_of_nesting hn, hout]; rfl
  have hwatched := htrace.nestAll_watched
  have hiff := htrace.nestAll_iff
  rw [hend] at hwatched hiff
  exact ⟨ts, ht, wellNested_iff.2 hwatched, wellNested_iff.trans hiff⟩

theorem wellNested_of_format_of_annotation :
    format ⟨4, 100⟩ "@A(1])\nclass B \x7b int[] c = \x7b d(0) \x7d; \x7d".toList =
        .ok "@A(1])\nclass B \x7b\n\n    int[] c = \x7b d(0) \x7d;\n\x7d\n".toList ∧
      ∃ ts, tokenize "@A(1])\nclass B \x7b int[] c = \x7b d(0) \x7d; \x7d".toList = .ok ts ∧
        WellNested ((visits ⟨4, 100⟩ {} none ts).flatMap Visit.watched) ∧ ¬ WellNested ts := by
  have hformat : format ⟨4, 100⟩ "@A(1])\nclass B \x7b int[] c = \x7b d(0) \x7d; \x7d".toList =
      .ok "@A(1])\nclass B \x7b\n\n    int[] c = \x7b d(0) \x7d;\n\x7d\n".toList := by decide +kernel
  obtain ⟨ts, ht, hwatched, -⟩ := wellNested_of_format hformat
  have hopen : (tokenize "@A(1])\nclass B \x7b int[] c = \x7b d(0) \x7d; \x7d".toList).toOption.bind (nestAll []) =
      none := by decide +kernel
  rw [ht] at hopen
  have hunmatched : nestAll [] ts = none := hopen
  refine ⟨hformat, ts, ht, hwatched, fun hnested => ?_⟩
  rw [wellNested_iff.1 hnested] at hunmatched
  cases hunmatched

end JpaScaffold.Java.Layout
