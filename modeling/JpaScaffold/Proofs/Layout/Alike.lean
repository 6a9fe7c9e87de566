import JpaScaffold.Proofs.Layout.Annotations
import JpaScaffold.Proofs.Layout.Growth
import JpaScaffold.Proofs.Layout.Held

/-!
# What a layout does not depend on

Without line comments, the lines on which tokens stand matter to errors only, and the blank before
the first token of a statement is not written. Runs that differ in nothing else write the same text.
-/
namespace JpaScaffold.Java.Layout

def Scope.erased (s : Scope) : Scope := { s with openedAt := 0 }

/-- The state without lines, and with a blank before the statement that is being read. -/
def State.erased (s : State) : State :=
  { s with
    scope := s.scope.erased
    outer := s.outer.map Scope.erased
    pending := leading s.pending
    nesting := s.nesting.map fun b => (b.1, 0) }

variable {o : Options} {s s' : State}

@[simp] theorem erased_indent : s.erased.indent o = s.indent o := by
  simp [State.indent, State.erased]

@[simp] theorem erased_text : s.erased.text = s.text := by
  simp [State.text, State.erased]

@[simp] theorem leading_eq_nil {ts : List Token} : leading ts = [] ↔ ts = [] := by
  cases ts <;> simp [leading]

theorem leading_append {ts : List Token} (h : ts ≠ []) (us : List Token) :
    leading (ts ++ us) = leading ts ++ us.map Token.unlined := by
  obtain ⟨t, ts, rfl⟩ := List.exists_cons_of_ne_nil h
  simp [leading]

theorem erased_pieces : s.erased.pieces o =
    (leading (s.pieces o).1, (s.pieces o).2.map (·.map Token.unlined)) := by
  unfold State.pieces
  rw [erased_indent, erased_text]
  split
  · rfl
  · have hnil : (chainPieces 0 s.pending).1 = [] → (chainPieces 0 s.pending).2 = [] := by
      cases hp : s.pending with
      | nil => exact fun _ => rfl
      | cons t rest =>
        obtain ⟨ts, hts⟩ := chainPieces_head 0 t rest
        intro h
        rw [hts] at h
        cases h
    have hpending : s.erased.pending = leading (chainPieces 0 s.pending).1 ++
        ((chainPieces 0 s.pending).2.map (·.map Token.unlined)).flatten := by
      have happ := chainPieces_append 0 s.pending
      rw [← List.map_flatten]
      unfold State.erased
      conv_lhs => rw [← happ]
      by_cases hfirst : (chainPieces 0 s.pending).1 = []
      · simp [hfirst, hnil hfirst, leading]
      · exact leading_append hfirst _
    rw [hpending]
    refine chainPieces_of_contents (sameContents_leading (chainPieces 0 s.pending).1) ?_
    rw [List.forall₂_map_right_iff]
    exact List.forall₂_same.2 fun p _ => map_content_unlined p

@[simp] theorem erased_statementLines : s.erased.statementLines o = s.statementLines o := by
  have hc : s.erased.carry = s.carry := rfl
  rw [statementLines_eq, statementLines_eq, erased_pieces, hc]
  simp [Function.comp_def, joinTokens_unlined]

theorem isTheWord_of_content {t t' : Token} (h : t.content = t'.content) (text : List Char) :
    t.isTheWord text = t'.isTheWord text := by
  simp only [Token.content, Prod.mk.injEq] at h
  simp [Token.isTheWord, h.1, h.2]

theorem isField_of_contents {ts ts' : List Token} (h : SameContents ts ts') :
    isField ts' = isField ts := by
  induction ts generalizing ts' with
  | nil => rw [sameContents_nil h]
  | cons t ts ih =>
    obtain ⟨u, us, rfl, hu, hus⟩ := sameContents_cons h
    simp only [isField, isPunct_of_content hu, ih hus]

theorem blockKind_of_contents {ts ts' : List Token} (h : SameContents ts ts') :
    blockKind ts' = blockKind ts := by
  induction ts generalizing ts' with
  | nil => rw [sameContents_nil h]
  | cons t ts ih =>
    obtain ⟨u, us, rfl, hu, hus⟩ := sameContents_cons h
    have htext : u.text = t.text := congrArg Prod.snd hu
    have ht := ih hus
    have hword : typeKeywords.any u.isTheWord = typeKeywords.any t.isTheWord := by
      simp only [typeKeywords, List.any_cons, List.any_nil, isTheWord_of_content hu]
    unfold blockKind at ht ⊢
    rw [List.find?_cons, List.find?_cons, hword]
    cases typeKeywords.any t.isTheWord with
    | true => simp only [htext]
    | false => exact ht

theorem startsImport_of_contents {ts ts' : List Token} (h : SameContents ts ts') :
    startsImport ts' = startsImport ts := by
  cases ts with
  | nil => rw [sameContents_nil h]
  | cons t ts =>
    obtain ⟨u, us, rfl, hu, -⟩ := sameContents_cons h
    exact isTheWord_of_content hu _

theorem startsAnnotation_of_contents {t t' : Token} {ts ts' : List Token}
    (ht : t'.content = t.content) (h : SameContents ts ts') :
    startsAnnotation t' ts' = startsAnnotation t ts := by
  cases ts with
  | nil => rw [sameContents_nil h]; rfl
  | cons u ts =>
    obtain ⟨v, vs, rfl, hv, -⟩ := sameContents_cons h
    have hk : v.kind = u.kind := congrArg Prod.fst hv
    have htext : v.text = u.text := congrArg Prod.snd hv
    simp [ startsAnnotation, isPunct_of_content ht, Token.isWord, hk, htext]

theorem isContinuation_of_contents {ts ts' : List Token} (h : SameContents ts ts') :
    isContinuation ts'.head? = isContinuation ts.head? := by
  cases ts with
  | nil => rw [sameContents_nil h]
  | cons t ts =>
    obtain ⟨u, us, rfl, hu, -⟩ := sameContents_cons h
    simp only [List.head?_cons, isContinuation, continuations, List.any_cons, List.any_nil,
      isTheWord_of_content hu]

@[simp] theorem erased_decorate (lines : List (List Char)) :
    (s.decorate o lines).erased = s.erased.decorate o lines := by
  rw [decorate_eq, decorate_eq]
  simp [State.setIn]
  rfl

@[simp] theorem erased_emitMember (lines : List (List Char)) (field : Bool) :
    (s.emitMember o lines field).erased = s.erased.emitMember o lines field := by
  rw [emitMember_eq, emitMember_eq]
  simp [State.setIn]
  rfl

theorem erased_clearStatement : s.clearStatement.erased = s.erased.clearStatement := rfl

theorem erased_emptyBlock (next : Option Token) :
    (s.emptyBlock o next).erased = s.erased.emptyBlock o next := by
  unfold State.emptyBlock
  rw [erased_text, apply_ite State.erased, erased_emitMember]
  rfl

theorem erased_openBlock (line : Nat) :
    (s.openBlock o line).erased = s.erased.openBlock o 0 := by
  have hkind : blockKind s.erased.pending = blockKind s.pending :=
    blockKind_of_contents (sameContents_leading s.pending)
  have hmember := erased_emitMember (o := o) (s := s.clearStatement)
    [withBrace s.text ['{']] false
  rw [erased_clearStatement] at hmember
  unfold State.openBlock
  rw [hkind, erased_text, ← hmember]
  rfl

theorem erased_endStatement : (s.endStatement o).erased = s.erased.endStatement o := by
  have himport : startsImport s.erased.pending = startsImport s.pending :=
    startsImport_of_contents (sameContents_leading s.pending)
  have hfield : s.erased.declaresField = s.declaresField := by
    unfold State.declaresField
    rw [← isField_of_contents (sameContents_leading s.pending)]
    rfl
  rw [endStatement_eq, endStatement_eq, himport, hfield, erased_statementLines, erased_text,
    apply_ite State.erased, erased_emitMember]
  rfl

theorem erased_settled : (s.settled o).erased = s.erased.settled o := by
  have hempty : s.erased.pending.isEmpty = s.pending.isEmpty := by
    cases hp : s.pending <;> simp [State.erased, hp, leading]
  unfold State.settled
  rw [hempty, erased_statementLines, apply_ite State.erased, erased_emitMember]
  rfl

theorem erased_left (around : Scope) (outer : List Scope) (next : Option Token) :
    (s.left o around outer next).erased =
      s.erased.left o around.erased (outer.map Scope.erased) next := by
  unfold State.left
  simp only [apply_ite State.erased]
  congr 1
  simp [State.pushLine, State.erased, State.indent]
  rfl

theorem emptyBlock_next {next next' : Option Token} (h : isContinuation next = isContinuation next') :
    s.emptyBlock o next = s.emptyBlock o next' := by
  unfold State.emptyBlock
  rw [h]

theorem closeBlock_next {next next' : Option Token} (h : isContinuation next = isContinuation next')
    (line : Nat) : s.closeBlock o line next = s.closeBlock o line next' := by
  unfold State.closeBlock
  rw [h]

/-- States that differ in lines only, or in the blank before the statement that is being read. -/
def Alike (s s' : State) : Prop := s.erased = s'.erased

theorem exists_pushToken {t : Token} {brackets : List Bracket} {assigned : Bool}
    (h : shift (s.nesting.map Prod.fst) s.assigned t = some (brackets, assigned)) :
    ∃ nesting, nesting.map Prod.fst = brackets ∧ s.pushToken t =
      .ok { s with pending := s.pending ++ [t], nesting, assigned } := by
  unfold shift at h
  unfold State.pushToken
  cases he : State.opens? t with
  | some b =>
    rw [he] at h
    cases h
    exact ⟨(b, t.line) :: s.nesting, rfl, rfl⟩
  | none =>
    cases hc : State.closes? t with
    | some b =>
      rw [he, hc] at h
      cases hn : s.nesting with
      | nil =>
        rw [hn] at h
        cases h
      | cons opened rest =>
        obtain ⟨opened, line⟩ := opened
        rw [hn, List.map_cons] at h
        dsimp only at h
        split at h
        · next hb =>
          cases h
          exact ⟨rest, rfl, by simp [hb]⟩
        · cases h
    | none =>
      rw [he, hc] at h
      cases h
      exact ⟨s.nesting, rfl, by simp⟩

namespace Alike

variable (h : Alike s s')
include h

theorem eq : s.erased = s'.erased := h

theorem pending : leading s.pending = leading s'.pending := congrArg State.pending h.eq

theorem pending_eq_nil : s.pending = [] ↔ s'.pending = [] := by
  rw [← leading_eq_nil, h.pending, leading_eq_nil]

theorem carry : s.carry = s'.carry := by
  have hc := congrArg State.carry h.eq
  exact hc

theorem assigned : s.assigned = s'.assigned := by
  have ha := congrArg State.assigned h.eq
  exact ha

theorem kind : s.scope.kind = s'.scope.kind := by
  have hk := congrArg (fun s : State => s.scope.kind) h.eq
  exact hk

theorem nesting : s.nesting.map Prod.fst = s'.nesting.map Prod.fst := by
  have hn := congrArg (fun s : State => s.nesting.map Prod.fst) h.eq
  simpa [State.erased, Function.comp_def] using hn

theorem nesting_eq_nil : s.nesting = [] ↔ s'.nesting = [] := by
  rw [← List.map_eq_nil_iff, h.nesting, List.map_eq_nil_iff]

theorem atStart : s.atStart = s'.atStart := by
  have hp : s.pending.isEmpty = s'.pending.isEmpty := by
    rw [Bool.eq_iff_iff, List.isEmpty_iff, List.isEmpty_iff, h.pending_eq_nil]
  rw [State.atStart, State.atStart, hp, h.carry]

theorem decorate (lines : List (List Char)) : Alike (s.decorate o lines) (s'.decorate o lines) := by
  unfold Alike
  rw [erased_decorate, erased_decorate, h.eq]

theorem emptyBlock (next : Option Token) : Alike (s.emptyBlock o next) (s'.emptyBlock o next) := by
  unfold Alike
  rw [erased_emptyBlock, erased_emptyBlock, h.eq]

theorem openBlock (line line' : Nat) : Alike (s.openBlock o line) (s'.openBlock o line') := by
  unfold Alike
  rw [erased_openBlock, erased_openBlock, h.eq]

theorem endStatement : Alike (s.endStatement o) (s'.endStatement o) := by
  unfold Alike
  rw [erased_endStatement, erased_endStatement, h.eq]

/-- The same token behind alike statements, with the same blank before it unless it is their first
one. -/
theorem push {t t' : Token} (ht : t.content = t'.content)
    (hs : s.pending ≠ [] → t.spaced = t'.spaced) :
    leading (s.pending ++ [t]) = leading (s'.pending ++ [t']) := by
  have hp := h.pending
  by_cases hn : s.pending = []
  · have hn' := h.pending_eq_nil.1 hn
    have hk : t.kind = t'.kind := congrArg Prod.fst ht
    have hx : t.text = t'.text := congrArg Prod.snd ht
    simp [hn, hn', leading, Token.detached, hk, hx]
  · have hn' : s'.pending ≠ [] := fun h0 => hn (h.pending_eq_nil.2 h0)
    have hu : t.unlined = t'.unlined := by
      have hk : t.kind = t'.kind := congrArg Prod.fst ht
      have hx : t.text = t'.text := congrArg Prod.snd ht
      simp [Token.unlined, hk, hx, hs hn]
    rw [leading_append hn, leading_append hn', hp]
    simp [hu]

theorem withPending {t t' : Token} {nesting nesting' : List (Bracket × Nat)}
    {assigned assigned' : Bool} (ht : t.content = t'.content)
    (hs : s.pending ≠ [] → t.spaced = t'.spaced) (ha : assigned = assigned')
    (hn : nesting.map Prod.fst = nesting'.map Prod.fst) :
    Alike { s with pending := s.pending ++ [t], nesting, assigned }
      { s' with pending := s'.pending ++ [t'], nesting := nesting', assigned := assigned' } := by
  have he := h.eq
  have hlines : nesting.map (fun b => (b.1, 0)) = nesting'.map fun b => (b.1, 0) := by
    have hz := congrArg (List.map fun b : Bracket => (b, 0)) hn
    simpa [Function.comp_def] using hz
  have hp := h.push ht hs
  unfold Alike
  unfold State.erased at he ⊢
  simp only [State.mk.injEq] at he
  obtain ⟨hout, hscope, houter, himports, -, -, -, hcarry⟩ := he
  simp only [hout, hscope, houter, himports, hcarry, hp, hlines, ha]

theorem closeBlock {s₁ : State} {line : Nat} {next : Option Token} (line' : Nat)
    (hs : s.closeBlock o line next = .ok s₁) :
    ∃ s₁', s'.closeBlock o line' next = .ok s₁' ∧ Alike s₁ s₁' := by
  have he := h.eq
  obtain ⟨around, outer, hout, hp, rfl⟩ := closeBlock_eq_ok.1 hs
  have houter : s.outer.map Scope.erased = s'.outer.map Scope.erased := congrArg State.outer he
  rw [hout, List.map_cons, eq_comm, List.map_eq_cons_iff] at houter
  obtain ⟨around', outer', hout', haround, houter'⟩ := houter
  refine ⟨_, closeBlock_eq_ok.2 ⟨around', outer', hout', ?_, rfl⟩, ?_⟩
  · rw [← h.kind]
    exact fun hne => hp fun h0 => hne (h.pending_eq_nil.1 h0)
  · unfold Alike
    rw [erased_left, erased_left, erased_settled, erased_settled, he, haround, houter']

theorem pushToken {s₁ : State} {t t' : Token} (ht : t.content = t'.content)
    (hsp : s.pending ≠ [] → t.spaced = t'.spaced) (hs : s.pushToken t = .ok s₁) :
    ∃ s₁', s'.pushToken t' = .ok s₁' ∧ Alike s₁ s₁' := by
  obtain ⟨hshift, hs₁⟩ := shift_of_pushToken hs
  rw [h.nesting, h.assigned, shift_of_content ht] at hshift
  obtain ⟨nesting, hn, hpush⟩ := exists_pushToken hshift
  refine ⟨_, hpush, ?_⟩
  rw [hs₁]
  exact h.withPending ht hsp rfl hn.symm

end Alike

/-- The tokens are the same but for their lines, and for the blank before the first one if it begins
a statement. -/
def Retold (s : State) (ts ts' : List Token) : Prop :=
  leading ts = leading ts' ∧ (s.pending ≠ [] → ts.map Token.unlined = ts'.map Token.unlined)

theorem sameContents_of_unlined {ts ts' : List Token}
    (h : ts.map Token.unlined = ts'.map Token.unlined) : SameContents ts ts' := by
  rw [SameContents, ← map_content_unlined ts, h, map_content_unlined]

theorem retold_of_unlined {ts ts' : List Token} (h : ts.map Token.unlined = ts'.map Token.unlined)
    (s : State) : Retold s ts ts' := by
  refine ⟨?_, fun _ => h⟩
  cases ts with
  | nil =>
    cases ts' with
    | nil => rfl
    | cons => cases h
  | cons t ts =>
    cases ts' with
    | nil => cases h
    | cons t' ts' =>
      simp only [List.map_cons, List.cons.injEq, Token.unlined, Token.mk.injEq] at h
      obtain ⟨⟨hk, hx, -, -⟩, hts⟩ := h
      simp only [leading, Token.detached, hk, hx, List.cons.injEq, true_and]
      exact hts

theorem Retold.sameContents {ts ts' : List Token} (h : Retold s ts ts') : SameContents ts ts' := by
  rw [SameContents, ← map_content_leading ts, h.1, map_content_leading]

theorem noLineComment_of_contents {ts ts' : List Token} (h : SameContents ts ts')
    (hl : NoLineComment ts) : NoLineComment ts' := by
  have hkinds : ts'.map Token.kind = ts.map Token.kind := by
    have hk := congrArg (List.map Prod.fst) h
    simpa [Function.comp_def, Token.content] using hk
  intro t ht
  have hmem : t.kind ∈ ts.map Token.kind := hkinds ▸ List.mem_map_of_mem ht
  obtain ⟨u, hu, hk⟩ := List.mem_map.1 hmem
  exact hk ▸ hl u hu

theorem Retold.cons {t : Token} {ts ts' : List Token} (h : Retold s (t :: ts) ts') :
    ∃ t' us, ts' = t' :: us ∧ t.content = t'.content ∧ (s.pending ≠ [] → t.spaced = t'.spaced) ∧
      ts.map Token.unlined = us.map Token.unlined := by
  obtain ⟨hl, hu⟩ := h
  cases ts' with
  | nil => cases hl
  | cons t' us =>
    simp only [leading, Token.detached, List.cons.injEq, Token.mk.injEq] at hl
    obtain ⟨⟨hk, hx, -, -⟩, hts⟩ := hl
    refine ⟨t', us, rfl, by rw [Token.content, Token.content, hk, hx], fun hne => ?_, hts⟩
    have hs := hu hne
    simp only [List.map_cons, List.cons.injEq, Token.unlined, Token.mk.injEq] at hs
    exact hs.1.2.2.1

/-- The rest of an annotation ends behind the same tokens on other lines. -/
theorem exists_annotationTail {ts ts' tail rest : List Token}
    (h : ts.map Token.unlined = ts'.map Token.unlined)
    (ht : annotationTail ts = some (tail, rest)) :
    ∃ tail' rest', annotationTail ts' = some (tail', rest') ∧
      tail.map Token.unlined = tail'.map Token.unlined ∧
      rest.map Token.unlined = rest'.map Token.unlined := by
  rw [← annotationTail_append ht, List.map_append, eq_comm, List.map_eq_append_iff] at h
  obtain ⟨tail', rest', rfl, htail, hrest⟩ := h
  refine ⟨tail', rest', ?_, htail.symm, hrest.symm⟩
  refine annotationTail_of_contents ht (sameContents_of_unlined htail.symm) fun hw => ?_
  rw [attaches_of_contents (sameContents_of_unlined hrest.symm)]
  -- an annotation without arguments is ended by what follows it, one with arguments by its parenthesis
  rcases annotationTail_getLast ht with ⟨x, hx, hp⟩ | ⟨hattach, -⟩
  · have hword := hw x hx
    simp [Token.isWord, (Token.isPunct_iff.1 hp).1] at hword
  · exact hattach

theorem joinTokens_of_unlined {t t' : Token} {ts ts' : List Token} (ht : t.content = t'.content)
    (h : ts.map Token.unlined = ts'.map Token.unlined) :
    joinTokens (t :: ts) = joinTokens (t' :: ts') := by
  have htext : t.text = t'.text := congrArg Prod.snd ht
  have hspread := congrArg spread h
  rw [spread_unlined, spread_unlined] at hspread
  rw [joinTokens_cons, joinTokens_cons, htext, hspread]

theorem forall_head?_isPunct {ts ts' : List Token} {text : List Char} (h : SameContents ts ts')
    (hn : ∀ next, ts.head? = some next → next.isPunct text = false) :
    ∀ next, ts'.head? = some next → next.isPunct text = false := by
  cases ts with
  | nil =>
    rw [sameContents_nil h]
    simp
  | cons u us =>
    obtain ⟨u', us', rfl, hu, -⟩ := sameContents_cons h
    rintro next ⟨⟩
    rw [isPunct_of_content hu]
    exact hn u rfl

variable {previous : Option Token} {t : Token} {rest : List Token}

/-- A move is made on alike states alike. -/
theorem Move.alike {p : Progress} {t' : Token} {rest' : List Token} (hm : Move o s previous t rest p)
    (h : Alike s s') (ht : t.content = t'.content) (hsp : s.pending ≠ [] → t.spaced = t'.spaced)
    (hr : rest.map Token.unlined = rest'.map Token.unlined) (hl : t.kind ≠ .lineComment) :
    ∃ p', Move o s' previous t' rest' p' ∧ Alike p.state p'.state ∧
      p.rest.map Token.unlined = p'.rest.map Token.unlined := by
  have hk : t.kind = t'.kind := congrArg Prod.fst ht
  have hrest := sameContents_of_unlined hr
  have hhead := isContinuation_of_contents hrest
  have hstart : startsAnnotation t' rest' = startsAnnotation t rest :=
    startsAnnotation_of_contents ht.symm hrest
  cases hm with
  | lineComment hc => exact absurd hc hl
  | blockComment hc hs =>
    have htext : t.text = t'.text := congrArg Prod.snd ht
    refine ⟨_, .blockComment (hk ▸ hc) (h.atStart ▸ hs), ?_, hr⟩
    rw [← htext]
    exact h.decorate _
  | @decoration name more tail rest₁ hrest₁ hs ha hta =>
    subst hrest₁
    obtain ⟨name', more', rfl, hname, hmore⟩ := List.map_eq_cons_iff.1 hr.symm
    obtain ⟨tail', rest₁', hta', htail, hrest₁⟩ := exists_annotationTail hmore.symm hta
    have hjoin : joinTokens (t :: name :: tail) = joinTokens (t' :: name' :: tail') :=
      joinTokens_of_unlined ht (List.cons_eq_cons.2 ⟨hname.symm, htail⟩)
    refine ⟨_, .decoration rfl (h.atStart ▸ hs) (hstart ▸ ha) hta', ?_, hrest₁⟩
    rw [← hjoin]
    exact h.decorate _
  | @emptyBlock next rest₁ hrest₁ hb hn ha hc =>
    subst hrest₁
    obtain ⟨next', rest₁', rfl, -, hmore⟩ := List.map_eq_cons_iff.1 hr.symm
    obtain ⟨u, us, heq, hu, hus⟩ := sameContents_cons hrest
    cases heq
    refine ⟨_, .emptyBlock rfl ?_ (h.nesting_eq_nil.1 hn) (h.assigned ▸ ha) ?_, ?_, hmore.symm⟩
    · rwa [← isPunct_of_content ht]
    · rwa [isPunct_of_content hu]
    · rw [emptyBlock_next (isContinuation_of_contents hus)]
      exact h.emptyBlock _
  | openBlock hb hn ha hnext =>
    refine ⟨_, .openBlock ?_ (h.nesting_eq_nil.1 hn) (h.assigned ▸ ha)
      (forall_head?_isPunct hrest hnext), h.openBlock _ _, hr⟩
    rwa [← isPunct_of_content ht]
  | closeBlock hb hn hs =>
    rw [closeBlock_next hhead.symm t.line] at hs
    obtain ⟨s₁', hs', halike⟩ := h.closeBlock t'.line hs
    refine ⟨_, .closeBlock ?_ (h.nesting_eq_nil.1 hn) hs', halike, hr⟩
    rwa [← isPunct_of_content ht]
  | statement hb hn =>
    refine ⟨_, .statement ?_ (h.nesting_eq_nil.1 hn), Alike.endStatement ?_, hr⟩
    · rwa [← isPunct_of_content ht]
    · exact h.withPending ht hsp h.assigned h.nesting
  | token hl' hbc ha hopen hclose hend hp =>
    obtain ⟨s₁', hs', halike⟩ := h.pushToken ht hsp hp
    refine ⟨_, .token ?_ ?_ ?_ ?_ ?_ ?_ hs', halike, hr⟩
    · rwa [← hk]
    · rw [← hk, ← h.atStart]
      exact hbc
    · rw [← h.atStart, hstart]
      exact ha
    · rw [← isPunct_of_content ht, ← h.nesting_eq_nil, ← h.assigned]
      exact hopen
    · rw [← isPunct_of_content ht, ne_eq, ← h.nesting_eq_nil]
      exact hclose
    · rw [← isPunct_of_content ht, ne_eq, ← h.nesting_eq_nil]
      exact hend

/-- Runs over the same tokens from alike states end in alike states. -/
theorem run_of_alike {ts ts' : List Token} {s₁ : State} (ht : Trace o s previous ts s₁)
    (h : Alike s s') (hts : Retold s ts ts') (hl : NoLineComment ts) :
    ∃ s₁', run o s' none ts' = .ok s₁' ∧ Alike s₁ s₁' := by
  induction ht generalizing s' ts' with
  | nil s previous =>
    have hnil : ts' = [] := leading_eq_nil.1 (hts.1.symm)
    rw [hnil, run]
    exact ⟨s', rfl, h⟩
  | @cons s s₁ previous t rest p hm ht ih =>
    have hl' := noLineComment_of_contents hts.sameContents hl
    obtain ⟨t', us, rfl, htt, hsp, hus⟩ := hts.cons
    obtain ⟨htl, hrl⟩ := noLineComment_cons.1 hl
    obtain ⟨p', hm', hp, hr⟩ := hm.alike h htt hsp hus htl
    have hlrest : NoLineComment p.rest := by
      obtain ⟨taken, htaken, -, -⟩ := exists_taken hm
      rw [htaken] at hl
      exact (noLineComment_append.1 hl).2
    obtain ⟨s₁', hrun, halike⟩ := ih hp (retold_of_unlined hr _) hlrest
    refine ⟨s₁', ?_, halike⟩
    have hlrest' := noLineComment_of_contents (sameContents_of_unlined hr) hlrest
    rw [run_previous hl' none previous, run_of_move hm', run_previous hlrest' _ none]
    exact hrun

theorem finish_of_alike {text : List Char} (h : Alike s s') (hf : finish o s = .ok text) :
    finish o s' = .ok text := by
  obtain ⟨hp, hn, ho, rfl⟩ := finish_eq_ok.1 hf
  have hout : s.out = s'.out := by
    have hout := congrArg State.out h.eq
    exact hout
  have himports : s.imports = s'.imports := by
    have himports := congrArg State.imports h.eq
    exact himports
  have houter : s'.outer = [] := by
    have houter := congrArg State.outer h.eq
    simpa [State.erased, ho] using houter.symm
  refine finish_eq_ok.2 ⟨h.pending_eq_nil.1 hp, h.nesting_eq_nil.1 hn, houter, ?_⟩
  simp only [State.finished, State.importLines, State.indent, hout, himports, h.carry, ho, houter]

end JpaScaffold.Java.Layout
