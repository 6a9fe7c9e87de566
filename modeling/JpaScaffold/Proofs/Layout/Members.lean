import JpaScaffold.Proofs.Layout.Held
import JpaScaffold.Proofs.Layout.Preservation

/-!
# Declarations are laid out

A sequence of statements, blocks and annotations whose brackets match is laid out from every state in
which nothing is being read: no step fails, the layout comes to rest in the block where it began, and
what the tokens say is kept.
-/
namespace JpaScaffold.Java.Layout

variable {o : Options} {s s' : State} {t : Token} {ts taken left rest : List Token}
  {ws inner more : List Content} {c : Content}

/-! ## Runs that keep what the tokens say -/

/-- The tokens in front of `rest` are read from one state to the other, and what they say is kept. -/
def Lays (o : Options) (s s' : State) (ts rest : List Token) : Prop :=
  ∀ previous, ∃ previous',
    (∀ w, Kept s previous (ts ++ rest) w → Kept s' previous' rest (w ++ ts.map Token.content)) ∧
      ∀ final, Trace o s' previous' rest final → Trace o s previous (ts ++ rest) final

theorem lays_nil : Lays o s s [] rest := by
  refine fun previous => ⟨previous, fun w hk => ?_, fun _ h => h⟩
  rw [List.map_nil, List.append_nil]
  exact hk

theorem Lays.append {s'' : State} {us : List Token} (h : Lays o s s' ts (us ++ rest))
    (hus : Lays o s' s'' us rest) : Lays o s s'' (ts ++ us) rest := by
  intro previous
  obtain ⟨previous', hkept, htrace⟩ := h previous
  obtain ⟨previous'', hkept', htrace'⟩ := hus previous'
  refine ⟨previous'', fun w hk => ?_, fun final hf => ?_⟩
  · rw [List.append_assoc] at hk
    rw [List.map_append, ← List.append_assoc]
    exact hkept' _ (hkept w hk)
  · rw [List.append_assoc]
    exact htrace final (htrace' final hf)

theorem fits_of_code (h : ∀ u ∈ taken, u.isComment = false) : Visit.Fits ⟨s, taken, rest⟩ := by
  have hplain : NoLineComment taken := by
    intro u hu hkind
    have hcode := h u hu
    simp [Token.isComment, hkind] at hcode
  unfold Visit.Fits
  split
  · next u hu =>
    intro hkind
    have hu : taken = [u] := hu
    exact absurd hkind (hplain u (hu ▸ List.mem_cons_self))
  · exact hplain

theorem written_of_code (h : ∀ u ∈ taken, u.isComment = false) :
    Visit.written ⟨s, taken, rest⟩ o = taken.map Token.content := by
  unfold Visit.written
  split
  · next t ht =>
    have hcode := h t (by simp_all)
    simp only [Token.isComment, Bool.or_eq_false_iff, beq_eq_false_iff_ne] at hcode
    rw [rewritten_of_code hcode.1 fun hb => absurd hb hcode.2]
    simp_all
  · rfl

theorem lays_of_move {previous' : Option Token}
    (hm : ∀ previous, Move o s previous t left ⟨s', previous', rest⟩) (ht : t :: left = taken ++ rest)
    (hcode : ∀ u ∈ taken, u.isComment = false)
    (hi : Visit.endsImport ⟨s, taken, rest⟩ = false) : Lays o s s' taken rest := by
  refine fun previous => ⟨previous', fun w hk => ?_, fun final hf => ?_⟩
  · rw [← ht] at hk
    have hkept := hk.move (hm previous) ht (fits_of_code hcode) hi
    rwa [written_of_code hcode] at hkept
  · rw [← ht]
    exact .cons (hm previous) hf

/-! ## Tokens between brackets -/

def mark (c : Char) : Content := (.punct, [c])

def structuralMarks : List (List Char) :=
  [['('], [')'], ['['], [']'], ['{'], ['}'], [';'], ['@']]

/-- A word, a literal or an operator. -/
def IsPlain (c : Content) : Prop :=
  c.1 = .word ∨ c.1 = .literal ∨ c.1 = .punct ∧ c.2 ∉ structuralMarks

/-- The characters that open and close a bracket inside of a statement. -/
inductive Pairs : Char → Char → Bracket → Prop
  | paren : Pairs '(' ')' .paren
  | square : Pairs '[' ']' .square

/-- Plain tokens, and parentheses and square brackets that match. -/
inductive Balanced : List Content → Prop
  | nil : Balanced []
  | plain {c : Content} {ws : List Content} (hc : IsPlain c) (h : Balanced ws) : Balanced (c :: ws)
  | group {l r : Char} {b : Bracket} {inner ws : List Content} (hb : Pairs l r b)
    (hinner : Balanced inner) (h : Balanced ws) :
    Balanced (mark l :: (inner ++ mark r :: ws))

theorem Balanced.append (h : Balanced ws) (hmore : Balanced more) : Balanced (ws ++ more) := by
  induction h with
  | nil => exact hmore
  | plain hc _ ih => exact .plain hc ih
  | group hb hinner _ _ ih =>
    rw [List.cons_append, List.append_assoc]
    exact .group hb hinner ih

theorem isPunct_of_mark {d : Char} (h : t.content = mark d) : t.isPunct [d] = true :=
  Token.isPunct_iff.2 ⟨congrArg Prod.fst h, congrArg Prod.snd h⟩

theorem isComment_of_mark {d : Char} (h : t.content = mark d) : t.isComment = false := by
  have hkind : t.kind = .punct := congrArg Prod.fst h
  simp [Token.isComment, hkind]

theorem IsPlain.isComment (h : IsPlain t.content) : t.isComment = false := by
  rcases h with h | h | ⟨h, -⟩
  all_goals
    change t.kind = _ at h
    simp [Token.isComment, h]

theorem IsPlain.isPunct (h : IsPlain t.content) {text : List Char} (ht : text ∈ structuralMarks) :
    t.isPunct text = false := by
  by_contra hpunct
  obtain ⟨hkind, rfl⟩ := Token.isPunct_iff.1 (eq_true_of_ne_false hpunct)
  rcases h with h | h | ⟨-, h⟩
  · rw [Token.content, hkind] at h
    cases h
  · rw [Token.content, hkind] at h
    cases h
  · exact h ht

/-- A token that neither begins an annotation nor ends what is being read is added to it. -/
theorem lays_push (hcode : t.isComment = false) (hat : t.isPunct ['@'] = false)
    (hcurly : t.isPunct ['{'] = false) (hclose : t.isPunct ['}'] = false)
    (hend : t.isPunct [';'] = false) (hp : s.pushToken t = .ok s') : Lays o s s' [t] rest := by
  have hkind : t.kind ≠ .lineComment ∧ t.kind ≠ .blockComment := by
    simpa [Token.isComment] using hcode
  have hannotation : startsAnnotation t rest = false := by
    by_contra h
    rw [ startsAnnotation_isPunct (eq_true_of_ne_false h)] at hat
    cases hat
  have hmove (previous : Option Token) : Move o s previous t rest ⟨s', some t, rest⟩ := by
    refine .token hkind.1 (fun h => absurd h hkind.2) (fun _ => hannotation) ?_ ?_ ?_ hp
    · intro h
      rw [hcurly] at h
      cases h
    · intro h
      rw [hclose] at h
      cases h
    · intro h
      rw [hend] at h
      cases h
  exact lays_of_move hmove rfl (List.forall_mem_singleton.2 hcode) (by simp [Visit.endsImport, hend])

/-- The tokens are added to the statement that is being read. -/
def State.reading (s : State) (ts : List Token) (assigned : Bool) : State :=
  { s with pending := s.pending ++ ts, assigned }

theorem reading_reading (s : State) (ts us : List Token) (assigned assigned' : Bool) :
    (s.reading ts assigned).reading us assigned' = s.reading (ts ++ us) assigned' := by
  simp only [State.reading, List.append_assoc]

theorem IsPlain.lays (h : IsPlain t.content) (s : State) (rest : List Token) :
    ∃ assigned, Lays o s (s.reading [t] assigned) [t] rest ∧
      (t.content ≠ mark '=' → assigned = s.assigned) := by
  have hno {text : List Char} (ht : text ∈ structuralMarks) : t.isPunct text = false := h.isPunct ht
  refine ⟨s.assigned || (t.isPunct ['='] && s.nesting.isEmpty), ?_, ?_⟩
  · apply lays_push h.isComment (hno (by decide)) (hno (by decide)) (hno (by decide))
      (hno (by decide))
    have hopens : State.opens? t = none := by
      simp [State.opens?, @hno ['('] (by decide), @hno ['['] (by decide), @hno ['{'] (by decide)]
    have hcloses : State.closes? t = none := by
      simp [State.closes?, @hno [')'] (by decide), @hno [']'] (by decide), @hno ['}'] (by decide)]
    rw [State.pushToken, hopens, hcloses]
    rfl
  · intro hne
    have hassign : t.isPunct ['='] = false := by
      by_contra hpunct
      exact hne (content_of_isPunct (eq_true_of_ne_false hpunct))
    rw [hassign, Bool.false_and, Bool.or_false]

theorem lays_mark {d : Char} (ht : t.content = mark d) (hd : d ∉ ['{', '}', ';', '@'])
    (hp : s.pushToken t = .ok s') : Lays o s s' [t] rest := by
  have hno {e : Char} (he : e ∈ ['{', '}', ';', '@']) : t.isPunct [e] = false := by
    apply isPunct_disjoint (isPunct_of_mark ht)
    intro heq
    cases heq
    exact hd he
  exact lays_push (isComment_of_mark ht) (hno (by decide)) (hno (by decide)) (hno (by decide))
    (hno (by decide)) hp

/-- The token opens a bracket of the statement that is being read. -/
def State.opening (s : State) (b : Bracket) (t : Token) : State :=
  { s with nesting := (b, t.line) :: s.nesting, pending := s.pending ++ [t] }

theorem lays_open {l r : Char} {b : Bracket} (hb : Pairs l r b) (ht : t.content = mark l)
    (s : State) (rest : List Token) : Lays o s (s.opening b t) [t] rest := by
  have hpunct := isPunct_of_mark ht
  cases hb with
  | paren =>
    apply lays_mark ht (by decide)
    simp [State.pushToken, State.opens?, hpunct, State.opening]
  | square =>
    have hparen : t.isPunct ['('] = false := isPunct_disjoint hpunct (by decide)
    apply lays_mark ht (by decide)
    simp [State.pushToken, State.opens?, hpunct, hparen, State.opening]

theorem lays_close {l r : Char} {b : Bracket} {line : Nat} {nesting : List (Bracket × Nat)}
    (hb : Pairs l r b) (ht : t.content = mark r) (hs : s.nesting = (b, line) :: nesting) :
    Lays o s { s with nesting, pending := s.pending ++ [t] } [t] rest := by
  have hpunct := isPunct_of_mark ht
  have hdisjoint {text : List Char} (hne : [r] ≠ text) : t.isPunct text = false :=
    isPunct_disjoint hpunct hne
  cases hb with
  | paren =>
    apply lays_mark ht (by decide)
    simp [State.pushToken, State.opens?, State.closes?, hpunct, hs, @hdisjoint ['('] (by decide),
      @hdisjoint ['['] (by decide), @hdisjoint ['{'] (by decide)]
  | square =>
    apply lays_mark ht (by decide)
    simp [State.pushToken, State.opens?, State.closes?, hpunct, hs, @hdisjoint ['('] (by decide),
      @hdisjoint ['['] (by decide), @hdisjoint ['{'] (by decide), @hdisjoint [')'] (by decide)]

theorem lays_group {l r : Char} {b : Bracket} {t' : Token} {us : List Token} {P : Prop}
    (hb : Pairs l r b) (ht : t.content = mark l) (ht' : t'.content = mark r)
    (hinner : ∀ s rest, ∃ assigned, Lays o s (s.reading us assigned) us rest ∧
      (P → assigned = s.assigned)) (s : State) (rest : List Token) :
    ∃ assigned, Lays o s (s.reading ([t] ++ (us ++ [t'])) assigned) ([t] ++ (us ++ [t'])) rest ∧
      (P → assigned = s.assigned) := by
  obtain ⟨assigned, hus, hassigned⟩ := hinner (s.opening b t) ([t'] ++ rest)
  have hnesting : ((s.opening b t).reading us assigned).nesting = (b, t.line) :: s.nesting := rfl
  have hclosed : Lays o _ _ [t'] rest := lays_close hb ht' hnesting
  have hstate : { (s.opening b t).reading us assigned with
      nesting := s.nesting
      pending := ((s.opening b t).reading us assigned).pending ++ [t'] } =
      s.reading ([t] ++ (us ++ [t'])) assigned := by
    simp only [State.opening, State.reading, List.append_assoc]
  rw [hstate] at hclosed
  have hbehind := Lays.append hus hclosed
  exact ⟨assigned, (lays_open hb ht s _).append hbehind, hassigned⟩

/-- Balanced tokens are added to what is being read. -/
theorem Balanced.lays (h : Balanced ws) (hts : ts.map Token.content = ws) (s : State)
    (rest : List Token) : ∃ assigned, Lays o s (s.reading ts assigned) ts rest ∧
      (mark '=' ∉ ws → assigned = s.assigned) := by
  -- what is laid out piece by piece is laid out as a whole
  have behind {us more : List Token} {P Q R : Prop} (hP : R → P) (hQ : R → Q)
      (hus : ∀ s rest, ∃ assigned, Lays o s (s.reading us assigned) us rest ∧
        (P → assigned = s.assigned))
      (hmore : ∀ s rest, ∃ assigned, Lays o s (s.reading more assigned) more rest ∧
        (Q → assigned = s.assigned)) (s : State) (rest : List Token) :
      ∃ assigned, Lays o s (s.reading (us ++ more) assigned) (us ++ more) rest ∧
        (R → assigned = s.assigned) := by
    obtain ⟨assigned, hlays, hassigned⟩ := hus s (more ++ rest)
    obtain ⟨assigned', hlays', hassigned'⟩ := hmore (s.reading us assigned) rest
    rw [reading_reading] at hlays'
    exact ⟨assigned', hlays.append hlays', fun hR => (hassigned' (hQ hR)).trans (hassigned (hP hR))⟩
  induction h generalizing s ts rest with
  | nil =>
    rw [List.map_eq_nil_iff.1 hts]
    have hsame : s.reading [] s.assigned = s := by simp [State.reading]
    refine ⟨s.assigned, ?_, fun _ => rfl⟩
    rw [hsame]
    exact lays_nil
  | plain hc _ ih =>
    obtain ⟨t, us, rfl, rfl, hus⟩ := List.map_eq_cons_iff.1 hts
    refine behind (fun hno => ?_) (fun hno => ?_) hc.lays (ih hus) s rest
    · exact fun heq => hno (heq ▸ List.mem_cons_self)
    · exact fun hmem => hno (List.mem_cons_of_mem _ hmem)
  | group hb _ _ ihinner ih =>
    obtain ⟨t, ts, rfl, ht, hts⟩ := List.map_eq_cons_iff.1 hts
    obtain ⟨us, ts, rfl, hus, hts⟩ := List.map_eq_append_iff.1 hts
    obtain ⟨t', ts, rfl, ht', hts⟩ := List.map_eq_cons_iff.1 hts
    have hgroup := lays_group hb ht ht' (ihinner hus)
    have hlist : t :: (us ++ t' :: ts) = ([t] ++ (us ++ [t'])) ++ ts := by simp
    rw [hlist]
    refine behind (fun hno => ?_) (fun hno => ?_) hgroup (ih hts) s rest
    · exact fun hmem => hno (by simp [hmem])
    · exact fun hmem => hno (by simp [hmem])

theorem argumentTail_push {us : List Token} (hopen : t.isPunct ['('] = false)
    (hclose : t.isPunct [')'] = false) (depth : Nat) :
    argumentTail depth (t :: us) = (argumentTail depth us).map fun (a, r) => (t :: a, r) := by
  conv_lhs => unfold argumentTail
  rw [hopen, hclose]
  rfl

theorem argumentTail_open {us : List Token} (h : t.isPunct ['('] = true) (depth : Nat) :
    argumentTail depth (t :: us) = (argumentTail (depth + 1) us).map fun (a, r) => (t :: a, r) := by
  conv_lhs => unfold argumentTail
  rw [if_pos h]

theorem argumentTail_close {us : List Token} (h : t.isPunct [')'] = true) (depth : Nat) :
    argumentTail (depth + 1) (t :: us) = (argumentTail depth us).map fun (a, r) => (t :: a, r) := by
  have hopen : t.isPunct ['('] = false := isPunct_disjoint h (by decide)
  conv_lhs => unfold argumentTail
  rw [hopen, if_pos h]
  rfl

/-- A parenthesis behind balanced tokens is found behind them. -/
theorem Balanced.argumentTail_eq (h : Balanced ws) (hts : ts.map Token.content = ws) (depth : Nat)
    (rest : List Token) : argumentTail depth (ts ++ rest) =
      (argumentTail depth rest).map fun (a, r) => (ts ++ a, r) := by
  induction h generalizing ts depth rest with
  | nil =>
    rw [List.map_eq_nil_iff.1 hts]
    simp
  | plain hc _ ih =>
    obtain ⟨t, us, rfl, rfl, hus⟩ := List.map_eq_cons_iff.1 hts
    rw [List.cons_append, argumentTail_push (hc.isPunct (by decide)) (hc.isPunct (by decide)),
      ih hus, Option.map_map]
    rfl
  | group hb _ _ ihinner ih =>
    obtain ⟨t, more, rfl, ht, hmore⟩ := List.map_eq_cons_iff.1 hts
    obtain ⟨us, more, rfl, hus, hbehind⟩ := List.map_eq_append_iff.1 hmore
    obtain ⟨t', more, rfl, ht', hws⟩ := List.map_eq_cons_iff.1 hbehind
    have hopen := isPunct_of_mark ht
    have hclose := isPunct_of_mark ht'
    have hlist : t :: (us ++ t' :: more) ++ rest = t :: (us ++ (t' :: (more ++ rest))) := by simp
    rw [hlist]
    cases hb with
    | paren =>
      rw [argumentTail_open hopen, ihinner hus, argumentTail_close hclose, ih hws]
      simp [Function.comp_def]
    | square =>
      rw [argumentTail_push (isPunct_disjoint hopen (by decide)) (isPunct_disjoint hopen (by decide)),
        ihinner hus, argumentTail_push (isPunct_disjoint hclose (by decide))
          (isPunct_disjoint hclose (by decide)), ih hws]
      simp [Function.comp_def]

/-- The content is not that of a comment. -/
def IsCode (c : Content) : Prop := c.1 ≠ .lineComment ∧ c.1 ≠ .blockComment

theorem isCode_mark (c : Char) : IsCode (mark c) := by simp [IsCode, mark]

theorem isComment_of_isCode (h : IsCode t.content) : t.isComment = false := by
  have hkind : t.kind ≠ .lineComment ∧ t.kind ≠ .blockComment := h
  simp [Token.isComment, hkind]

theorem Balanced.isCode (h : Balanced ws) : ∀ c ∈ ws, IsCode c := by
  induction h with
  | nil => exact List.forall_mem_nil _
  | plain hc _ ih =>
    refine List.forall_mem_cons.2 ⟨?_, ih⟩
    rcases hc with hc | hc | ⟨hc, -⟩
    all_goals
      rw [IsCode, hc]
      decide
  | group _ _ _ ihinner ih =>
    refine List.forall_mem_cons.2 ⟨isCode_mark _, List.forall_mem_append.2 ⟨ihinner, ?_⟩⟩
    exact List.forall_mem_cons.2 ⟨isCode_mark _, ih⟩

/-! ## Members of a block -/

/-- The tokens of a declaration or a statement. They begin with a word that neither continues a
closed block nor imports. -/
structure Clause (ws : List Content) : Prop where
  balanced : Balanced ws
  first : ∃ word more, ws = (.word, word) :: more ∧ word ∉ continuations ∧ word ≠ "import".toList

/-- The arguments of an annotation, or none. -/
inductive Arguments : List Content → Prop
  | none : Arguments []
  | some {inner : List Content} (h : Balanced inner) :
      Arguments (mark '(' :: (inner ++ [mark ')']))

theorem Arguments.balanced (h : Arguments ws) : Balanced ws := by
  cases h with
  | none => exact .nil
  | some h => exact .group .paren h .nil

/-- Annotations, statements and blocks, each complete. -/
inductive Members : List Content → Prop
  | nil : Members []
  | marker {name : List Char} {args ws : List Content} (hname : name ≠ "interface".toList)
      (hargs : Arguments args) (h : Members ws) :
      Members (mark '@' :: (.word, name) :: (args ++ ws))
  | statement {clause ws : List Content} (hc : Clause clause) (h : Members ws) :
      Members (clause ++ mark ';' :: ws)
  | block {header body ws : List Content} (hc : Clause header) (hassign : mark '=' ∉ header)
      (hbody : Members body) (h : Members ws) :
      Members (header ++ mark '{' :: (body ++ mark '}' :: ws))

theorem Members.append (h : Members ws) (hmore : Members more) : Members (ws ++ more) := by
  induction h with
  | nil => exact hmore
  | marker hname hargs _ ih =>
    rw [List.cons_append, List.cons_append, List.append_assoc]
    exact .marker hname hargs ih
  | statement hc _ ih =>
    rw [List.append_assoc, List.cons_append]
    exact .statement hc ih
  | block hc hassign hbody _ _ ih =>
    rw [List.append_assoc, List.cons_append, List.append_assoc, List.cons_append]
    exact .block hc hassign hbody ih

theorem Members.isCode (h : Members ws) : ∀ c ∈ ws, IsCode c := by
  have hword (word : List Char) : IsCode (.word, word) := by simp [IsCode]
  induction h with
  | nil => exact List.forall_mem_nil _
  | marker _ hargs _ ih =>
    refine List.forall_mem_cons.2 ⟨isCode_mark _, List.forall_mem_cons.2 ⟨hword _, ?_⟩⟩
    exact List.forall_mem_append.2 ⟨hargs.balanced.isCode, ih⟩
  | statement hc _ ih =>
    exact List.forall_mem_append.2 ⟨hc.balanced.isCode, List.forall_mem_cons.2 ⟨isCode_mark _, ih⟩⟩
  | block hc _ _ _ ihbody ih =>
    refine List.forall_mem_append.2 ⟨hc.balanced.isCode, List.forall_mem_cons.2 ⟨isCode_mark _, ?_⟩⟩
    exact List.forall_mem_append.2 ⟨ihbody, List.forall_mem_cons.2 ⟨isCode_mark _, ih⟩⟩

/-- A token that begins a member or closes a block: it does not go on with what stands before it. -/
def Begins (c : Content) : Prop :=
  c = mark '@' ∨ c = mark '}' ∨ ∃ word, c = (.word, word) ∧ word ∉ continuations

/-- The tokens begin with a new member, or close the block. -/
def Fresh (ts : List Token) : Prop := ∀ t, ts.head? = some t → Begins t.content

theorem fresh_nil : Fresh [] := by
  intro t ht
  cases ht

theorem Fresh.isContinuation (h : Fresh rest) : isContinuation rest.head? = false := by
  cases rest with
  | nil => rfl
  | cons t rest =>
    by_contra hcontinues
    have hcontinues := eq_true_of_ne_false hcontinues
    have hword := kind_of_isContinuation hcontinues
    rcases h t rfl with h | h | ⟨word, h, hno⟩
    · rw [Token.content, hword] at h
      cases h
    · rw [Token.content, hword] at h
      cases h
    · simp only [List.head?_cons, Layout.isContinuation, List.any_eq_true, Token.isTheWord,
        Bool.and_eq_true, beq_iff_eq] at hcontinues
      obtain ⟨_, hmem, -, rfl⟩ := hcontinues
      rw [Token.content, Prod.mk.injEq] at h
      exact hno (h.2 ▸ hmem)

theorem Fresh.attaches (h : Fresh rest) : attaches rest = false := by
  have hno {t : Token} (ht : Begins t.content) :
      t.isPunct ['('] = false ∧ t.isPunct ['.'] = false := by
    rcases ht with ht | ht | ⟨word, ht, -⟩
    · have hpunct := isPunct_of_mark ht
      exact ⟨isPunct_disjoint hpunct (by decide), isPunct_disjoint hpunct (by decide)⟩
    · have hpunct := isPunct_of_mark ht
      exact ⟨isPunct_disjoint hpunct (by decide), isPunct_disjoint hpunct (by decide)⟩
    · have hkind : t.kind = .word := congrArg Prod.fst ht
      simp [Token.isPunct, hkind]
  rcases rest with _ | ⟨t, _ | ⟨u, rest⟩⟩
  · rfl
  · exact (hno (h t rfl)).1
  · simp [Layout.attaches, hno (h t rfl)]

theorem Clause.exists_first (h : Clause ws) (hts : ts.map Token.content = ws) :
    ∃ t us word, ts = t :: us ∧ t.content = (.word, word) ∧ word ∉ continuations ∧
      word ≠ "import".toList := by
  obtain ⟨word, more, rfl, hno, himport⟩ := h.first
  obtain ⟨t, us, rfl, ht, -⟩ := List.map_eq_cons_iff.1 hts
  exact ⟨t, us, word, rfl, ht, hno, himport⟩

theorem Members.exists_first (h : Members ws) (hts : ts.map Token.content = ws) :
    ts = [] ∨ ∃ t us, ts = t :: us ∧ Begins t.content ∧ t.isPunct ['}'] = false := by
  have clause {ws more : List Content} {ts : List Token} (hc : Clause ws)
      (hts : ts.map Token.content = ws ++ more) :
      ∃ t us, ts = t :: us ∧ Begins t.content ∧ t.isPunct ['}'] = false := by
    obtain ⟨as, bs, rfl, has, -⟩ := List.map_eq_append_iff.1 hts
    obtain ⟨t, us, word, rfl, ht, hno, -⟩ := hc.exists_first has
    have hkind : t.kind = .word := congrArg Prod.fst ht
    exact ⟨t, us ++ bs, rfl, .inr (.inr ⟨word, ht, hno⟩), by simp [Token.isPunct, hkind]⟩
  cases h with
  | nil => exact .inl (List.map_eq_nil_iff.1 hts)
  | marker =>
    obtain ⟨t, us, rfl, ht, -⟩ := List.map_eq_cons_iff.1 hts
    exact .inr ⟨t, us, rfl, .inl ht, isPunct_disjoint (isPunct_of_mark ht) (by decide)⟩
  | statement hc => exact .inr (clause hc hts)
  | block hc => exact .inr (clause hc hts)

theorem Members.fresh (h : Members ws) (hts : ts.map Token.content = ws) (hr : Fresh rest) :
    Fresh (ts ++ rest) := by
  rcases h.exists_first hts with rfl | ⟨t, us, rfl, ht, -⟩
  · exact hr
  · intro u hu
    cases hu
    exact ht

/-! ## Members are laid out -/

/-- Nothing is being read, and no closed block is continued. -/
structure Resting (s : State) : Prop extends Idle s where
  carry : s.carry = none

/-- The tokens in front of `rest` are laid out, and the layout comes to rest in the same block. -/
def Returns (o : Options) (s : State) (ts rest : List Token) : Prop :=
  ∃ s', Resting s' ∧ s'.outer = s.outer ∧ s'.scope.kind = s.scope.kind ∧ Lays o s s' ts rest

theorem Returns.append {us : List Token} (h : Returns o s ts (us ++ rest))
    (hus : ∀ s', Resting s' → s'.outer = s.outer → s'.scope.kind = s.scope.kind →
      Returns o s' us rest) : Returns o s (ts ++ us) rest := by
  obtain ⟨s', hrest, houter, hkind, hlays⟩ := h
  obtain ⟨s'', hrest', houter', hkind', hlays'⟩ := hus s' hrest houter hkind
  exact ⟨s'', hrest', houter'.trans houter, hkind'.trans hkind, hlays.append hlays'⟩

theorem Resting.atStart (h : Resting s) : s.atStart = true := by
  simp [State.atStart, h.pending, h.carry]

theorem Resting.decorate (h : Resting s) (lines : List (List Char)) :
    Resting (s.decorate o lines) := by
  rw [decorate_eq]
  exact ⟨⟨h.pending, h.nesting, h.assigned⟩, h.carry⟩

theorem resting_emitMember (h : s.nesting = []) (lines : List (List Char)) (field : Bool) :
    Resting (s.clearStatement.emitMember o lines field) := by
  rw [emitMember_eq]
  exact ⟨⟨rfl, h, rfl⟩, rfl⟩

theorem annotationTail_of_arguments (h : Arguments ws) (hts : ts.map Token.content = ws)
    (hr : Fresh rest) : annotationTail (ts ++ rest) = some (ts, rest) := by
  cases h with
  | none =>
    have hattaches := hr.attaches
    rw [List.map_eq_nil_iff.1 hts, List.nil_append, annotationTail,
      dottedTail_of_not_attaches hattaches]
    rcases rest with _ | ⟨t, _ | ⟨u, rest⟩⟩
    · rfl
    · simp only [attaches] at hattaches
      simp [hattaches]
    · simp only [attaches, Bool.or_eq_false_iff] at hattaches
      simp [hattaches.1]
  | some hinner =>
    obtain ⟨t, more, rfl, ht, hmore⟩ := List.map_eq_cons_iff.1 hts
    obtain ⟨us, more, rfl, hus, hmore⟩ := List.map_eq_append_iff.1 hmore
    obtain ⟨t', more, rfl, ht', hmore⟩ := List.map_eq_cons_iff.1 hmore
    obtain rfl := List.map_eq_nil_iff.1 hmore
    have hopen := isPunct_of_mark ht
    have hclose := isPunct_of_mark ht'
    have hno : t'.isPunct ['('] = false := isPunct_disjoint hclose (by decide)
    have hname : dottedTail (t :: (us ++ [t']) ++ rest) = ([], t :: (us ++ [t']) ++ rest) := by
      have hdot : t.isPunct ['.'] = false := isPunct_disjoint hopen (by decide)
      obtain ⟨u, more, hmore⟩ := List.exists_cons_of_ne_nil (l := us ++ [t'] ++ rest) (by simp)
      rw [List.cons_append, hmore, dottedTail, hdot]
      rfl
    rw [annotationTail, hname]
    simp only [List.cons_append, hopen, if_true, List.append_assoc, hinner.argumentTail_eq hus,
      List.nil_append]
    simp [argumentTail, hno, hclose]

theorem returns_marker {name : Token} {word : List Char} (hs : Resting s) (ht : t.content = mark '@')
    (hname : name.content = (.word, word)) (hword : word ≠ "interface".toList)
    (hws : Arguments ws) (hts : ts.map Token.content = ws) (hr : Fresh rest) :
    Returns o s (t :: name :: ts) rest := by
  have hkind : name.kind = .word := congrArg Prod.fst hname
  have htext : name.text = word := congrArg Prod.snd hname
  have hstarts : startsAnnotation t (name :: (ts ++ rest)) = true := by
    simpa [ startsAnnotation, isPunct_of_mark ht, Token.isWord, hkind, htext] using hword
  have hmove (previous : Option Token) : Move o s previous t (name :: (ts ++ rest)) _ :=
    .decoration rfl hs.atStart hstarts (annotationTail_of_arguments hws hts hr)
  refine ⟨_, hs.decorate [joinTokens (t :: name :: ts)], ?_, ?_, lays_of_move hmove rfl ?_ ?_⟩
  · rw [decorate_eq]
  · rw [decorate_eq]
  · refine List.forall_mem_cons.2 ⟨isComment_of_mark ht, List.forall_mem_cons.2 ⟨?_, ?_⟩⟩
    · simp [Token.isComment, hkind]
    · intro u hu
      exact isComment_of_isCode (hws.balanced.isCode _ (hts ▸ List.mem_map_of_mem hu))
  · simp [Visit.endsImport]

/-- A statement is laid out as a member of its own. -/
theorem lays_statement (hs : Resting s) (hc : Clause ws) (hts : ts.map Token.content = ws)
    (ht : t.content = mark ';') (rest : List Token) :
    ∃ s', Resting s' ∧ s'.outer = s.outer ∧ s'.scope.kind = s.scope.kind ∧
      s'.scope.inElement = false ∧ Lays o s s' (ts ++ [t]) rest := by
  obtain ⟨u, us, word, rfl, hu, -, himport⟩ := hc.exists_first hts
  obtain ⟨assigned, hlays, -⟩ := hc.balanced.lays hts s ([t] ++ rest)
  have hpending : (s.reading (u :: us) assigned).pending = u :: us := by
    simp [State.reading, hs.pending]
  have hstarts (more : List Token) : startsImport (u :: us ++ more) = false := by
    have htext : u.text = word := congrArg Prod.snd hu
    simpa [startsImport, Token.isTheWord, htext] using fun _ => himport
  have hmove (previous : Option Token) : Move o (s.reading (u :: us) assigned) previous t rest _ :=
    .statement (isPunct_of_mark ht) hs.nesting
  have hno : Visit.endsImport ⟨s.reading (u :: us) assigned, [t], rest⟩ = false := by
    have hno := hstarts []
    rw [List.append_nil] at hno
    simp [Visit.endsImport, hpending, hno]
  have hlast := lays_of_move hmove rfl (List.forall_mem_singleton.2 (isComment_of_mark ht)) hno
  rw [endStatement_of_member fun _ => by rw [hpending]; exact hstarts [t]] at hlast
  refine ⟨_, resting_emitMember hs.nesting _ _, ?_, ?_, ?_, hlays.append hlast⟩
  · rw [emitMember_outer]
    rfl
  · rw [emitMember_eq]
    rfl
  · rw [emitMember_eq]

theorem emptyBlock_of_fresh (hr : Fresh rest) : s.emptyBlock o rest.head? =
    s.clearStatement.emitMember o [withBrace s.text ['{', '}']] false :=
  emptyBlock_of_ended hr.isContinuation

theorem Resting.openBlock (h : s.nesting = []) (line : Nat) : Resting (s.openBlock o line) := by
  unfold State.openBlock
  rw [emitMember_eq]
  exact ⟨⟨rfl, h, rfl⟩, rfl⟩

theorem openBlock_outer (s : State) (o : Options) (line : Nat) :
    ∃ around, (s.openBlock o line).outer = around :: s.outer ∧ around.kind = s.scope.kind := by
  unfold State.openBlock
  rw [emitMember_eq]
  exact ⟨_, rfl, rfl⟩

theorem Resting.closeBlock {around : Scope} {outer : List Scope} (h : Resting s)
    (houter : s.outer = around :: outer) (line : Nat) (hr : Fresh rest) :
    ∃ s', s.closeBlock o line rest.head? = .ok s' ∧ Resting s' ∧ s'.outer = outer ∧
      s'.scope.kind = around.kind := by
  refine ⟨_, closeBlock_eq_ok.2 ⟨around, outer, houter, fun hne => absurd h.pending hne, rfl⟩, ?_⟩
  have hsettled : s.settled o = s := by simp [State.settled, h.pending]
  rw [hsettled, State.left, hr.isContinuation]
  exact ⟨⟨⟨h.pending, h.nesting, h.assigned⟩, h.carry⟩, rfl, rfl⟩

/-- A block is laid out if its members are. -/
theorem returns_block {t' : Token} {us : List Token} (hs : Resting s) (hc : Clause ws)
    (hassign : mark '=' ∉ ws) (hts : ts.map Token.content = ws) (ht : t.content = mark '{')
    (hfirst : us = [] ∨ ∃ u more, us = u :: more ∧ u.isPunct ['}'] = false)
    (hus : ∀ s rest, Resting s → Fresh rest → Returns o s us rest) (ht' : t'.content = mark '}')
    (hr : Fresh rest) : Returns o s (ts ++ t :: (us ++ [t'])) rest := by
  obtain ⟨assigned, hheader, hassigned⟩ := hc.balanced.lays hts s (t :: (us ++ [t']) ++ rest)
  obtain rfl : assigned = false := (hassigned hassign).trans hs.assigned
  have hopen := isPunct_of_mark ht
  have hclose := isPunct_of_mark ht'
  have hcode := isComment_of_mark ht
  rcases hfirst with rfl | ⟨u, more, rfl, hu⟩
  · have hmove (previous : Option Token) :
        Move o (s.reading ts false) previous t (t' :: rest) _ :=
      .emptyBlock rfl hopen hs.nesting rfl hclose
    have hlast : Lays o (s.reading ts false) _ [t, t'] rest := lays_of_move hmove rfl
      (List.forall_mem_cons.2 ⟨hcode, List.forall_mem_singleton.2 (isComment_of_mark ht')⟩)
      (by simp [Visit.endsImport])
    rw [emptyBlock_of_fresh hr] at hlast
    refine ⟨_, resting_emitMember hs.nesting _ _, ?_, ?_, hheader.append hlast⟩
    · rw [emitMember_outer]
      rfl
    · rw [emitMember_eq]
      rfl
  · have hmove (previous : Option Token) :
        Move o (s.reading ts false) previous t (u :: more ++ [t'] ++ rest) _ :=
      .openBlock hopen hs.nesting rfl fun next hnext => Option.some.inj hnext ▸ hu
    have hbegin := lays_of_move hmove rfl (List.forall_mem_singleton.2 hcode)
      (by simp [Visit.endsImport, isPunct_disjoint hopen (b := [';']) (by decide)])
    have hopened := Resting.openBlock (o := o) (s := s.reading ts false) hs.nesting t.line
    obtain ⟨around, houter, hkind⟩ := openBlock_outer (s.reading ts false) o t.line
    have hfresh : Fresh ([t'] ++ rest) := fun t ht => Option.some.inj ht ▸ .inr (.inl ht')
    obtain ⟨s₁, hs₁, houter₁, -, hmembers⟩ := hus _ _ hopened hfresh
    obtain ⟨s₂, hclosed, hs₂, houter₂, hkind₂⟩ :=
      hs₁.closeBlock (o := o) (houter₁.trans houter) t'.line hr
    have hmove' (previous : Option Token) : Move o s₁ previous t' rest _ :=
      .closeBlock hclose hs₁.nesting hclosed
    have hend := lays_of_move hmove' rfl (List.forall_mem_singleton.2 (isComment_of_mark ht'))
      (by simp [Visit.endsImport, isPunct_disjoint hclose (b := [';']) (by decide)])
    have hblock := hbegin.append (hmembers.append hend)
    exact ⟨s₂, hs₂, houter₂, hkind₂.trans hkind, hheader.append hblock⟩

/-- Members are laid out, and the layout comes to rest behind them. -/
theorem Members.returns (h : Members ws) (hts : ts.map Token.content = ws) (hs : Resting s)
    (hr : Fresh rest) : Returns o s ts rest := by
  induction h generalizing s ts rest with
  | nil =>
    rw [List.map_eq_nil_iff.1 hts]
    exact ⟨s, hs, rfl, rfl, lays_nil⟩
  | marker hname hargs hws ih =>
    obtain ⟨t, more, rfl, ht, hmore⟩ := List.map_eq_cons_iff.1 hts
    obtain ⟨name, more, rfl, hn, hbehind⟩ := List.map_eq_cons_iff.1 hmore
    obtain ⟨args, us, rfl, hargs', hus⟩ := List.map_eq_append_iff.1 hbehind
    have hfirst := returns_marker (o := o) hs ht hn hname hargs hargs' (hws.fresh hus hr)
    exact hfirst.append fun s' hs' _ _ => ih hus hs' hr
  | statement hc hws ih =>
    obtain ⟨clause, more, rfl, hclause, hmore⟩ := List.map_eq_append_iff.1 hts
    obtain ⟨t, us, rfl, ht, hus⟩ := List.map_eq_cons_iff.1 hmore
    obtain ⟨s₁, hs₁, houter, hkind, -, hlays⟩ := lays_statement (o := o) hs hc hclause ht (us ++ rest)
    have hfirst : Returns o s (clause ++ [t]) (us ++ rest) := ⟨s₁, hs₁, houter, hkind, hlays⟩
    rw [List.append_cons]
    exact hfirst.append fun s' hs' _ _ => ih hus hs' hr
  | block hc hassign hbody hws ihbody ih =>
    obtain ⟨header, more, rfl, hheader, hmore⟩ := List.map_eq_append_iff.1 hts
    obtain ⟨t, more, rfl, ht, hbehind⟩ := List.map_eq_cons_iff.1 hmore
    obtain ⟨body, more, rfl, hbody', hrest⟩ := List.map_eq_append_iff.1 hbehind
    obtain ⟨t', us, rfl, ht', hus⟩ := List.map_eq_cons_iff.1 hrest
    have hfirst : body = [] ∨ ∃ u more, body = u :: more ∧ u.isPunct ['}'] = false :=
      (hbody.exists_first hbody').imp id fun ⟨u, more, hu, _, hno⟩ => ⟨u, more, hu, hno⟩
    have hblock := returns_block (o := o) hs hc hassign hheader ht hfirst
      (fun s rest hs hr => ihbody hbody' hs hr) ht' (hws.fresh hus hr)
    have hlist : header ++ t :: (body ++ t' :: us) = header ++ t :: (body ++ [t']) ++ us := by simp
    rw [hlist]
    exact hblock.append fun s' hs' _ _ => ih hus hs' hr

end JpaScaffold.Java.Layout
