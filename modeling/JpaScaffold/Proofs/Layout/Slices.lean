import JpaScaffold.Proofs.Layout.Loop

/-!
# Slices of a source

A statement, an annotation and a piece of a chain of calls are slices of the tokens of a source. Each
of them is written with single spaces, cut off from what stood around it and possibly broken into
lines. None of that merges or splits a token: the text is read as the tokens that it was made from.
-/
namespace JpaScaffold.Java

theorem exists_tokens_of_scan {cs : List Char} {ts : List Token} (h : scan false cs = some ts) :
    ∃ us, tokenize cs = .ok us ∧ us.map Token.unlined = ts := by
  rw [← scan_of_tokensFrom 1] at h
  unfold tokenize
  cases hus : tokensFrom 1 false cs with
  | error e =>
    rw [hus] at h
    cases h
  | ok us =>
    rw [hus] at h
    exact ⟨us, rfl, Option.some.inj h⟩

/-- A joined slice is read as its tokens, with a blank where a blank stood between two of them. -/
theorem tokenize_joinTokens {tokens : List Token} (h : Legible tokens) (hk : NoLineComment tokens) :
    ∃ ts, tokenize (joinTokens tokens) = .ok ts ∧ ts.map Token.content = tokens.map Token.content ∧
      ts.tail.map Token.spaced = tokens.tail.map Token.spaced := by
  cases tokens with
  | nil => exact ⟨[], by simp [tokenize, tokensFrom], rfl, rfl⟩
  | cons t rest =>
    have hlegible : Legible (t :: rest ++ []) := by rwa [List.append_nil]
    have hscan := scan_joinTokens hlegible hk (.done []) false
    rw [List.append_nil, scan_nil, Option.map_some, List.append_nil] at hscan
    obtain ⟨us, htokens, hunlined⟩ := exists_tokens_of_scan hscan
    cases us with
    | nil => cases hunlined
    | cons u us =>
      rw [List.map_cons, List.cons.injEq] at hunlined
      obtain ⟨hfirst, hmore⟩ := hunlined
      have hcontent : u.unlined.content = t.content := by
        rw [hfirst]
        rfl
      have hcontents := congrArg (List.map Token.content) hmore
      have hspaced := congrArg (List.map Token.spaced) hmore
      rw [List.map_map, List.map_map] at hcontents hspaced
      exact ⟨u :: us, htokens, congrArg₂ List.cons hcontent hcontents, hspaced⟩

namespace Layout

variable {tokens : List Token} {starts : List Nat} {cuts : List (Nat × List Char)}
  {pieces : List (List Token)} {n : Nat}

/-- The lines of the tokens, broken in front of the given positions, each line behind the first one
with the indentation given for it. -/
def linesAt (tokens : List Token) : List (Nat × List Char) → Except Stop (List (List Char))
  | [] => .ok [joinTokens tokens]
  | cut :: cuts => do
    let front ← slice tokens 0 cut.1
    let pieces ← slicesAt tokens (cut.1 :: cuts.map Prod.fst)
    return joinTokens front ::
      List.zipWith (fun cut piece => cut.2 ++ joinTokens piece) (cut :: cuts) pieces

/-! ## The positions of the breaks -/

/-- Positions in a list of the given length, none in front of an earlier one. -/
structure Ascending (starts : List Nat) (length : Nat) : Prop where
  sorted : starts.Pairwise (· ≤ ·)
  bounded : ∀ start ∈ starts, start ≤ length

theorem Ascending.sublist {length : Nat} {chosen : List Nat} (h : Ascending starts length)
    (hs : chosen.Sublist starts) : Ascending chosen length where
  sorted := h.sorted.sublist hs
  bounded start hmem := h.bounded start (hs.subset hmem)

theorem le_of_mem_startsOf {start : Nat} (h : start ∈ startsOf n pieces) :
    n ≤ start ∧ start ≤ n + pieces.flatten.length := by
  induction pieces generalizing n with
  | nil => cases h
  | cons piece pieces ih =>
    rw [List.flatten_cons, List.length_append]
    rcases List.mem_cons.1 h with rfl | hmem
    · omega
    · have hrest := ih hmem
      omega

theorem startsOf_sorted (n : Nat) (pieces : List (List Token)) :
    (startsOf n pieces).Pairwise (· ≤ ·) := by
  induction pieces generalizing n with
  | nil => exact .nil
  | cons piece pieces ih =>
    refine .cons (fun start hmem => ?_) (ih _)
    have hle := (le_of_mem_startsOf hmem).1
    omega

theorem exists_chainBreaks (tokens : List Token) :
    ∃ breaks, chainBreaks tokens = .ok breaks ∧ Ascending breaks tokens.length := by
  have happend := congrArg List.length (chainPieces_append 0 tokens)
  rw [List.length_append] at happend
  refine ⟨_, chainBreaks_eq tokens, startsOf_sorted _ _, fun start hmem => ?_⟩
  rw [← happend]
  exact (le_of_mem_startsOf hmem).2

/-! ## The slices between the breaks -/

theorem slice_eq {i j : Nat} (hij : i ≤ j) (hj : j ≤ tokens.length) :
    slice tokens i j = .ok ((tokens.drop i).take (j - i)) := if_pos ⟨hij, hj⟩

/-- Between ascending positions there are slices, one for each position. -/
theorem exists_slicesAt (start : Nat) (h : Ascending (start :: starts) tokens.length) :
    ∃ pieces, slicesAt tokens (start :: starts) = .ok pieces ∧
      pieces.length = starts.length + 1 ∧ pieces.flatten = tokens.drop start := by
  induction starts generalizing start with
  | nil =>
    have hlast := slice_eq (h.bounded start (by simp)) (Nat.le_refl _)
    refine ⟨[tokens.drop start], ?_, rfl, by simp⟩
    rw [slicesAt, hlast, List.take_of_length_le (by simp)]
    rfl
  | cons next starts ih =>
    obtain ⟨pieces, hslices, hlength, hflatten⟩ := ih next (h.sublist (List.sublist_cons_self _ _))
    have hle : start ≤ next := List.rel_of_pairwise_cons h.sorted (by simp)
    have hpiece := slice_eq hle (h.bounded next (by simp))
    refine ⟨(tokens.drop start).take (next - start) :: pieces, ?_, by rw [List.length_cons, hlength]; rfl,
      ?_⟩
    · rw [slicesAt, hpiece, hslices]
      rfl
    · have hdrop : tokens.drop next = (tokens.drop start).drop (next - start) := by
        rw [List.drop_drop, Nat.add_sub_cancel' hle]
      rw [List.flatten_cons, hflatten, hdrop, List.take_append_drop]

/-! ## The lines -/

theorem spells_zipWith_setIn (hlength : pieces.length = cuts.length) (h : Legible pieces.flatten)
    (hk : NoLineComment pieces.flatten) (hb : ∀ cut ∈ cuts, ∀ c ∈ cut.2, Text.isBlank c = true) :
    List.Forall₂ (Spells .contents AtGap)
      (List.zipWith (fun cut piece => cut.2 ++ joinTokens piece) cuts pieces)
      (pieces.map (List.map Token.content)) := by
  induction pieces generalizing cuts with
  | nil =>
    rw [List.zipWith_nil_right]
    exact .nil
  | cons piece pieces ih =>
    cases cuts with
    | nil => cases hlength
    | cons cut cuts =>
      rw [List.flatten_cons] at h hk
      obtain ⟨hpiece, hpieces⟩ := noLineComment_append.1 hk
      obtain ⟨hcut, hcuts⟩ := List.forall_mem_cons.1 hb
      have hspells : Spells .contents AtGap (joinTokens piece) (piece.map Token.content) :=
        spells_joinTokens h.of_append_left hpiece
      exact .cons (hspells.blanks hcut) (ih (Nat.succ.inj hlength) h.of_append_right hpieces hcuts)

/-- Tokens that are broken in front of ascending positions say what they say on one line. -/
theorem exists_linesAt (h : Legible tokens) (hk : NoLineComment tokens)
    (hcuts : Ascending (cuts.map Prod.fst) tokens.length)
    (hb : ∀ cut ∈ cuts, ∀ c ∈ cut.2, Text.isBlank c = true) :
    ∃ lines, linesAt tokens cuts = .ok lines ∧
      Spells .contents AtGap (page lines) (tokens.map Token.content) := by
  cases cuts with
  | nil =>
    refine ⟨[joinTokens tokens], rfl, ?_⟩
    rw [page_singleton]
    exact spells_joinTokens h hk
  | cons cut cuts =>
    obtain ⟨pieces, hslices, hlength, hflatten⟩ := exists_slicesAt cut.1 hcuts
    have hfront := slice_eq (Nat.zero_le cut.1) (hcuts.bounded cut.1 (by simp))
    rw [Nat.sub_zero, List.drop_zero] at hfront
    have hsplit : tokens.take cut.1 ++ pieces.flatten = tokens := by
      rw [hflatten, List.take_append_drop]
    rw [← hsplit] at h hk
    obtain ⟨hkfront, hkpieces⟩ := noLineComment_append.1 hk
    have hline : Spells .contents AtGap (joinTokens (tokens.take cut.1))
        ((tokens.take cut.1).map Token.content) := spells_joinTokens h.of_append_left hkfront
    have hlength : pieces.length = (cut :: cuts).length := by
      rw [hlength, List.length_map, List.length_cons]
    have hpage := spells_page (.cons hline (spells_zipWith_setIn hlength h.of_append_right hkpieces hb))
    rw [List.flatten_cons, ← List.map_flatten, ← List.map_append, hsplit] at hpage
    refine ⟨_, ?_, hpage⟩
    rw [linesAt, hfront, ok_bind, hslices]
    rfl

theorem length_of_slicesAt (h : slicesAt tokens starts = .ok pieces) :
    pieces.length = starts.length := by
  induction starts using slicesAt.induct generalizing pieces with
  | case1 =>
    cases h
    rfl
  | case2 start =>
    obtain ⟨last, -, hpieces⟩ := bind_eq_ok.1 h
    cases hpieces
    rfl
  | case3 start next starts ih =>
    obtain ⟨piece, -, hrest⟩ := bind_eq_ok.1 h
    obtain ⟨more, hmore, hpieces⟩ := bind_eq_ok.1 hrest
    cases hpieces
    exact congrArg Nat.succ (ih hmore)

theorem zipWith_setIn (indent : List Char) (h : pieces.length = starts.length) :
    List.zipWith (fun cut piece => cut.2 ++ joinTokens piece) (starts.map (·, indent)) pieces =
      pieces.map fun piece => indent ++ joinTokens piece := by
  calc
    _ = List.zipWith (fun _ piece => indent ++ joinTokens piece) starts pieces := List.zipWith_map_left
    _ = (starts.zip pieces).map fun cut => indent ++ joinTokens cut.2 := by
      rw [List.map_zip_eq_zipWith]
      rfl
    _ = ((starts.zip pieces).map Prod.snd).map fun piece => indent ++ joinTokens piece := by
      rw [List.map_map]
      rfl
    _ = pieces.map fun piece => indent ++ joinTokens piece := by
      rw [List.map_snd_zip (Nat.le_of_eq h)]

/-- The lines that a statement is written in are its lines at the breaks, all of them set in by one
step of indentation. -/
theorem brokenLines_eq_linesAt {m : Machine} (h : m.carry = none) (o : Options) (breaks : List Nat) :
    m.brokenLines o breaks =
      linesAt m.pending (breaks.map fun start => (start, List.replicate o.tabWidth ' ')) := by
  cases breaks with
  | nil =>
    rw [Machine.brokenLines, Machine.text, h]
    rfl
  | cons first more =>
    have hstarts : (more.map fun start => (start, List.replicate o.tabWidth ' ')).map Prod.fst =
        more := by
      rw [List.map_map]
      exact List.map_id more
    rw [Machine.brokenLines, h, List.map_cons, linesAt, hstarts]
    refine congrArg (slice m.pending 0 first >>= ·) (funext fun front => ?_)
    cases hslices : slicesAt m.pending (first :: more) with
    | error stop => rfl
    | ok pieces =>
      have hlines := zipWith_setIn (List.replicate o.tabWidth ' ') (length_of_slicesAt hslices)
      rw [ok_bind, ok_bind]
      exact congrArg (fun lines => Except.ok (joinTokens front :: lines)) hlines.symm

/-- A slice of the tokens of a source, written with single spaces, is read as the same tokens, and it
still says the same where it is broken in front of some of the points that follow calls. -/
theorem tokenize_slice {source : List Char} {before tokens behind : List Token}
    (h : tokenize source = .ok (before ++ (tokens ++ behind))) (hk : NoLineComment tokens) :
    (∃ ts, tokenize (joinTokens tokens) = .ok ts ∧
      ts.map Token.content = tokens.map Token.content ∧
      ts.tail.map Token.spaced = tokens.tail.map Token.spaced) ∧
    ∃ breaks, chainBreaks tokens = .ok breaks ∧
      ∀ cuts : List (Nat × List Char), (cuts.map Prod.fst).Sublist breaks →
        (∀ cut ∈ cuts, ∀ c ∈ cut.2, Text.isBlank c = true) →
        ∃ lines ts, linesAt tokens cuts = .ok lines ∧ tokenize (page lines) = .ok ts ∧
          ts.map Token.content = tokens.map Token.content := by
  have hlegible : Legible tokens := (legible_of_tokenize h).of_append_right.of_append_left
  obtain ⟨breaks, hbreaks, hascending⟩ := exists_chainBreaks tokens
  refine ⟨tokenize_joinTokens hlegible hk, breaks, hbreaks, fun cuts hcuts hb => ?_⟩
  obtain ⟨lines, hlines, hspells⟩ := exists_linesAt hlegible hk (hascending.sublist hcuts) hb
  have hcontents := hspells.contents_eq atLineEnd_nil.atGap
  rw [List.append_nil, contents_nil, Option.map_some, List.append_nil] at hcontents
  obtain ⟨ts, htokens, hsame⟩ := exists_tokens_of_contents hcontents
  exact ⟨lines, ts, hlines, htokens, hsame⟩

def chainedCalls : List Token :=
  [⟨.word, ['a'], true, 1⟩, ⟨.punct, ['('], false, 1⟩, ⟨.punct, [')'], false, 1⟩,
    ⟨.punct, ['.'], true, 1⟩, ⟨.word, ['b'], false, 1⟩, ⟨.punct, ['('], false, 1⟩,
    ⟨.word, "1.5".toList, false, 1⟩, ⟨.punct, [')'], false, 1⟩, ⟨.punct, ['.'], false, 1⟩,
    ⟨.word, ['c'], false, 1⟩]

/-- Of the two breaks of the chain the second one is taken. -/
theorem tokenize_slice_of_chainedCalls :
    tokenize "x; a() .b(1.5).c/* y */".toList =
      .ok ([⟨.word, ['x'], false, 1⟩, ⟨.punct, [';'], false, 1⟩] ++
        (chainedCalls ++ [⟨.blockComment, "/* y */".toList, false, 1⟩])) ∧
    (∃ ts, tokenize "a() .b(1.5).c".toList = .ok ts ∧
      ts.map Token.content = chainedCalls.map Token.content ∧
      ts.tail.map Token.spaced = chainedCalls.tail.map Token.spaced) ∧
    ∃ ts, tokenize "a() .b(1.5)\n\t .c".toList = .ok ts ∧
      ts.map Token.content = chainedCalls.map Token.content := by
  have hsource : tokenize "x; a() .b(1.5).c/* y */".toList =
      .ok ([⟨.word, ['x'], false, 1⟩, ⟨.punct, [';'], false, 1⟩] ++
        (chainedCalls ++ [⟨.blockComment, "/* y */".toList, false, 1⟩])) := by decide +kernel
  obtain ⟨hjoined, breaks, hbreaks, hbroken⟩ := tokenize_slice hsource (by unfold NoLineComment; decide)
  cases hbreaks
  have hblank : ∀ c ∈ ['\t', ' '], Text.isBlank c = true := List.all_eq_true.1 rfl
  obtain ⟨lines, ts, hlines, htokens, hsame⟩ :=
    hbroken [(8, ['\t', ' '])] (by decide) (List.forall_mem_singleton.2 hblank)
  cases hlines
  exact ⟨hsource, hjoined, ts, htokens, hsame⟩

end Layout

end JpaScaffold.Java
