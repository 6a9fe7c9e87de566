import JpaScaffold.Proofs.Ddl.Returns
import Mathlib.Data.List.TakeWhile

/-!
# Texts that end with a semicolon of code

Such a text is scanned as if nothing followed it, and what follows is scanned as if it stood alone: a
scan stands in code behind the semicolon and looks at no next character there, keywords end in front of
it, and no word goes on behind it. Any text has its own marks in front of a text with which no mark of
several characters goes on.
-/
namespace JpaScaffold.Ddl

variable {r : Region} {c : Char} {cs : List Char} {ms ns before rest : List Marked} {m : Marked}
  {words : List (List Char)} {inWord : Bool} {f : Found}

/-! ## Marks in front of a text -/

theorem mark_of_passes (h : Passes id r c cs.head?) :
    mark r (c :: cs) = ⟨c, r.isCode⟩ :: mark r cs := by
  cases r with
  | code =>
    obtain ⟨hsingle, hdouble, hline, hblock⟩ := h
    rw [mark]
    · rfl
    · exact hsingle
    · exact hdouble
    · rintro more rfl rfl
      exact hline ⟨rfl, rfl⟩
    · rintro more rfl rfl
      exact hblock ⟨rfl, rfl⟩
    · rintro more rfl rfl
      exact hblock ⟨rfl, rfl⟩
  | single =>
    rw [mark]
    · rfl
    · rintro more rfl rfl
      exact h rfl
    · exact h
  | double =>
    rw [mark]
    · rfl
    · exact h
  | line =>
    rw [mark]
    · rfl
    · exact h
  | block =>
    rw [mark]
    · rfl
    · rintro more rfl rfl
      exact h ⟨rfl, rfl⟩

/-- No mark of several characters goes on with the front of the text. -/
def Fresh (cs : List Char) : Prop := ∀ c, cs.head? = some c → c ∉ ['\'', '-', '*', '/']

theorem Fresh.head?_append {d : Char} {ds : List Char} (hds : Fresh ds)
    (hd : d ∈ ['\'', '-', '*', '/']) (h : cs.head? ≠ some d) : (cs ++ ds).head? ≠ some d := by
  cases cs with
  | nil => exact fun hhead => hds d hhead hd
  | cons c cs => exact h

/-- What a scan marks in front of a fresh text does not depend on it, and the scan stands in one region
behind it. -/
def Leads (r : Region) (cs : List Char) : Prop :=
  ∃ r' : Region, ∀ ds, Fresh ds → mark r (cs ++ ds) = mark r cs ++ mark r' ds

theorem Leads.behind {r₂ : Region} (h : Leads r₂ cs) (front : List Char) (marks : List Marked)
    (hmark : ∀ ds, Fresh ds → mark r (front ++ (cs ++ ds)) = marks ++ mark r₂ (cs ++ ds)) :
    Leads r (front ++ cs) := by
  obtain ⟨r', happend⟩ := h
  have hnil : Fresh [] := fun _ hc => nomatch hc
  have hfront := hmark [] hnil
  rw [List.append_nil] at hfront
  refine ⟨r', fun ds hds => ?_⟩
  rw [List.append_assoc, hmark ds hds, happend ds hds, hfront, List.append_assoc]

theorem Leads.passes (h : Leads r cs) (hpass : ∀ ds, Fresh ds → Passes id r c (cs ++ ds).head?) :
    Leads r (c :: cs) :=
  h.behind [c] [⟨c, r.isCode⟩] fun ds hds => mark_of_passes (hpass ds hds)

theorem leads (r : Region) (cs : List Char) : Leads r cs := by
  -- only where the scan looks ahead does it matter that what follows starts afresh
  fun_induction mark r cs with
  | case1 r => exact ⟨r, fun ds _ => by rw [mark_nil]; rfl⟩
  | case2 rest ih => exact ih.behind ['\''] [⟨'\'', false⟩] fun _ _ => rfl
  | case3 rest ih => exact ih.behind ['"'] [⟨'"', false⟩] fun _ _ => rfl
  | case4 rest ih => exact ih.behind ['-', '-'] [⟨'-', false⟩, ⟨'-', false⟩] fun _ _ => rfl
  | case5 rest ih =>
    exact ih.behind ['/', '*', '/'] [⟨'/', false⟩, ⟨'*', false⟩, ⟨'/', false⟩] fun _ _ => rfl
  | case6 rest hopen ih =>
    refine ih.behind ['/', '*'] [⟨'/', false⟩, ⟨'*', false⟩] fun ds hds => ?_
    have hhead := hds.head?_append (by decide) (head?_ne hopen)
    change mark .code ('/' :: '*' :: (rest ++ ds)) = _
    rw [mark]
    · rfl
    · rintro more hmore
      exact hhead (by rw [hmore]; rfl)
  | case7 c rest hsingle hdouble hline _ hblock ih =>
    refine ih.passes fun ds hds => ⟨hsingle, hdouble, ?_, ?_⟩
    · exact fun h => hds.head?_append (by decide) (head?_ne (hline · h.1)) h.2
    · exact fun h => hds.head?_append (by decide) (head?_ne (hblock · h.1)) h.2
  | case8 rest ih => exact ih.behind ['\'', '\''] [⟨'\'', false⟩, ⟨'\'', false⟩] fun _ _ => rfl
  | case9 rest hdoubled ih =>
    refine ih.behind ['\''] [⟨'\'', false⟩] fun ds hds => ?_
    have hhead := hds.head?_append (by decide) (head?_ne hdoubled)
    change mark .single ('\'' :: (rest ++ ds)) = _
    rw [mark]
    · rfl
    · rintro more hmore
      exact hhead (by rw [hmore]; rfl)
  | case10 c rest _ hquote ih => exact Leads.passes (r := .single) ih fun _ _ => hquote
  | case11 rest ih => exact ih.behind ['"'] [⟨'"', false⟩] fun _ _ => rfl
  | case12 c rest hquote ih => exact Leads.passes (r := .double) ih fun _ _ => hquote
  | case13 rest ih => exact ih.behind ['\n'] [⟨'\n', true⟩] fun _ _ => rfl
  | case14 c rest hfeed ih => exact Leads.passes (r := .line) ih fun _ _ => hfeed
  | case15 rest ih => exact ih.behind ['*', '/'] [⟨'*', false⟩, ⟨'/', false⟩] fun _ _ => rfl
  | case16 c rest hclose ih =>
    refine ih.passes fun ds hds => ?_
    exact fun h => hds.head?_append (by decide) (head?_ne (hclose · h.1)) h.2

theorem mark_eq_of_fresh (h : mark r cs = ms ++ ns) (hns : Fresh (unmark ns)) :
    mark r (unmark ms) = ms := by
  have hcs : cs = unmark ms ++ unmark ns := by
    rw [← unmark_mark r cs, h, unmark, List.map_append]
    rfl
  obtain ⟨r', happend⟩ := leads r (unmark ms)
  rw [hcs, happend _ hns] at h
  refine (List.append_inj h ?_).1
  rw [length_mark, unmark, List.length_map]

/-! ## Marks behind a semicolon -/

theorem passes_semicolon (r : Region) (next : Option Char) : Passes id r ';' next := by
  cases r <;> simp [Passes]

/-- The region in which a scan stands behind the last semicolon of a text has the mark of that semicolon,
and the marks of the text do not depend on what follows. -/
theorem closes (h : cs.getLast? = some ';') : ∃ r' : Region,
    (mark r cs).getLast? = some ⟨';', r'.isCode⟩ ∧
      ∀ ds, mark r (cs ++ ds) = mark r cs ++ mark r' ds := by
  obtain ⟨front, rfl⟩ := List.getLast?_eq_some_iff.1 h
  obtain ⟨r', hfront⟩ := leads r front
  have hfresh (ds : List Char) : Fresh (';' :: ds) := by
    rintro c ⟨⟩
    decide
  have hmark (ds : List Char) :
      mark r (front ++ ';' :: ds) = mark r front ++ ⟨';', r'.isCode⟩ :: mark r' ds := by
    rw [hfront _ (hfresh ds), mark_of_passes (passes_semicolon r' ds.head?)]
  refine ⟨r', ?_, fun ds => ?_⟩
  · rw [hmark, mark_nil, List.getLast?_concat]
  · rw [List.append_assoc, List.singleton_append, hmark, hmark, mark_nil, List.append_assoc]
    rfl

/-- The text ends with a semicolon of code. -/
def Ended (ms : List Marked) : Prop := ms.getLast? = some ⟨';', true⟩

theorem Ended.of_append (h : Ended (ns ++ ms)) (hne : ms ≠ []) : Ended ms := by
  unfold Ended at h ⊢
  rwa [List.getLast?_append_of_ne_nil ns hne] at h

theorem getLast?_unmark (ms : List Marked) : (unmark ms).getLast? = ms.getLast?.map Marked.char :=
  List.getLast?_map

theorem eq_code_of_isCode (h : r.isCode = true) : r = .code := by
  cases r with
  | code => rfl
  | single | double | line | block => cases h

theorem mark_append (h : Ended (mark r cs)) (ds : List Char) :
    mark r (cs ++ ds) = mark r cs ++ mark .code ds := by
  have hlast : cs.getLast? = some ';' := by
    rw [← unmark_mark r cs, getLast?_unmark, h]
    rfl
  obtain ⟨r', hmark, happend⟩ := closes (r := r) hlast
  have hcode : r' = .code := by
    apply eq_code_of_isCode
    rw [h, Option.some.injEq, Marked.mk.injEq] at hmark
    exact hmark.2.symm
  rw [happend, hcode]

/-- The marks of a text are those that it has in front of another text, if they end with a semicolon of
code. -/
theorem mark_eq_of_append {ds : List Char} (h : mark r (cs ++ ds) = ms ++ ns) (hcs : unmark ms = cs)
    (hend : Ended ms) : mark r cs = ms := by
  have hlast : cs.getLast? = some ';' := by
    rw [← hcs, getLast?_unmark, hend]
    rfl
  obtain ⟨r', -, happend⟩ := closes (r := r) hlast
  rw [happend] at h
  refine (List.append_inj h ?_).1
  rw [length_mark, ← hcs, unmark, List.length_map]

theorem exists_before (ns : List Marked) (hns : ∀ n ∈ ns, n.isCode = false) (h : ns ++ ms = before ++ m :: rest)
    (hm : m.isCode = true) : ∃ before', ms = before' ++ m :: rest := by
  rcases List.append_eq_append_iff.1 h with ⟨before', -, hms⟩ | ⟨more, hns', hms⟩
  · exact ⟨before', hms⟩
  · cases more with
    | nil => exact ⟨[], hms.symm⟩
    | cons m' more =>
      cases hms
      rw [hns m (by rw [hns']; simp)] at hm
      cases hm

/-- A scan stands in code in front of a character of code, unless the character ends a line. -/
theorem mark_of_suffix (h : mark r cs = before ++ m :: rest) (hm : m.isCode = true)
    (hc : m.char ≠ '\n') : mark .code (unmark (m :: rest)) = m :: rest := by
  -- What is passed over in front of the rest is code in two of the cases only.
  fun_induction mark r cs generalizing before with
  | case1 => simp at h
  | case7 c cs hsingle hdouble hline hopen hblock ih =>
    have hmark : mark .code (c :: cs) = ⟨c, true⟩ :: mark .code cs := by
      rw [mark] <;> assumption
    cases before with
    | nil =>
      rw [← hmark, List.nil_append] at h
      rw [← h, unmark_mark]
    | cons m' before => exact ih (List.cons.inj h).2
  | case13 cs ih =>
    cases before with
    | nil =>
      cases h
      exact absurd rfl hc
    | cons m' before => exact ih (List.cons.inj h).2
  | case2 cs ih | case3 cs ih | case9 cs _ ih | case10 c cs _ _ ih | case11 cs ih
  | case12 c cs _ ih | case14 c cs _ ih | case16 c cs _ ih =>
    obtain ⟨before', h'⟩ := exists_before [_] (by simp) h hm
    exact ih h'
  | case4 cs ih | case6 cs _ ih | case8 cs ih | case15 cs ih =>
    obtain ⟨before', h'⟩ := exists_before [_, _] (by simp) h hm
    exact ih h'
  | case5 cs ih =>
    obtain ⟨before', h'⟩ := exists_before [_, _, _] (by simp) h hm
    exact ih h'

/-! ## Keywords in front of a text -/

theorem Spelled.ne_semicolon (h : Spelled words ms) (hws : AreKeywords words) :
    ∀ m ∈ ms, m.char ≠ ';' := by
  intro m hm hsemicolon
  have hchar := h.char hws m hm
  rw [hsemicolon] at hchar
  revert hchar
  decide

theorem matchKeywords_iff (hws : AreKeywords words) :
    matchKeywords words false ms = some rest ↔
      ∃ keywords, ms = keywords ++ rest ∧ Spelled words keywords ∧ endsWord rest = true := by
  constructor
  · exact exists_of_matchKeywords hws.ne_nil
  · rintro ⟨keywords, rfl, hspelled, hends⟩
    rw [matchKeywords, if_neg (by decide), dropWords_spelled hspelled hws, Option.filter_some,
      if_pos hends]

theorem endsWord_append (h : ms ≠ []) (ns : List Marked) : endsWord (ms ++ ns) = endsWord ms := by
  cases ms with
  | nil => exact absurd rfl h
  | cons m ms => rfl

theorem exists_behind (h : Ended ms) (hws : AreKeywords words) {keywords : List Marked}
    (hspelled : Spelled words keywords) (heq : ms ++ ns = keywords ++ rest) :
    ∃ more, more ≠ [] ∧ ms = keywords ++ more ∧ rest = more ++ ns := by
  have hsemicolon : (⟨';', true⟩ : Marked) ∉ keywords :=
    fun hmem => hspelled.ne_semicolon hws _ hmem rfl
  rcases List.append_eq_append_iff.1 heq with ⟨more, hkeywords, -⟩ | ⟨more, hms, hrest⟩
  · refine absurd (List.mem_of_getLast? h) fun hmem => hsemicolon ?_
    rw [hkeywords]
    exact List.mem_append_left more hmem
  · refine ⟨more, ?_, hms, hrest⟩
    rintro rfl
    rw [List.append_nil] at hms
    rw [← hms] at hsemicolon
    exact hsemicolon (List.mem_of_getLast? h)

/-- Which keywords stand in front of a text that ends with a semicolon of code does not depend on what
follows it. -/
theorem matchKeywords_append (h : Ended ms) (hws : AreKeywords words) (ns : List Marked) :
    matchKeywords words inWord (ms ++ ns) = (matchKeywords words inWord ms).map (· ++ ns) := by
  cases inWord with
  | true => rfl
  | false =>
    cases hfound : matchKeywords words false ms with
    | some rest =>
      obtain ⟨keywords, hms, hspelled, hends⟩ := (matchKeywords_iff hws).1 hfound
      have heq : ms ++ [] = keywords ++ rest := by rw [hms, List.append_nil]
      obtain ⟨more, hne, hmore, -⟩ := exists_behind h hws hspelled heq
      rw [hms] at hmore
      have hrest := List.append_cancel_left hmore
      rw [hms, Option.map_some]
      apply (matchKeywords_iff hws).2
      refine ⟨keywords, List.append_assoc .., hspelled, ?_⟩
      rw [endsWord_append (hrest ▸ hne), hends]
    | none =>
      rw [Option.map_none]
      cases hlonger : matchKeywords words false (ms ++ ns) with
      | none => rfl
      | some rest =>
        obtain ⟨keywords, heq, hspelled, hends⟩ := (matchKeywords_iff hws).1 hlonger
        obtain ⟨more, hne, hms, hrest⟩ := exists_behind h hws hspelled heq
        rw [hrest, endsWord_append hne] at hends
        rw [(matchKeywords_iff hws).2 ⟨keywords, hms, hspelled, hends⟩] at hfound
        cases hfound

/-- A search in a text that ends with a semicolon of code finds what it finds in that text alone. Where
there is nothing in it, the search goes on behind it as if it started there. -/
theorem seek_append (h : Ended ms) (hws : AreKeywords words) (ns : List Marked) :
    seek words inWord (ms ++ ns) =
      (seek words inWord ms).bind fun
        | some f => .ok (some ⟨f.before, f.start ++ ns, f.after ++ ns⟩)
        | none =>
          (seek words false ns).map (Option.map fun f => { f with before := ms ++ f.before }) := by
  induction ms generalizing inWord with
  | nil => cases h
  | cons m ms ih =>
    have hmatch : (if m.isCode then matchKeywords words inWord (m :: ms ++ ns) else none) =
        (if m.isCode then matchKeywords words inWord (m :: ms) else none).map (· ++ ns) := by
      rw [matchKeywords_append h hws]
      cases m.isCode <;> rfl
    rw [List.cons_append, seek, seek, ← List.cons_append, hmatch]
    cases (if m.isCode then matchKeywords words inWord (m :: ms) else none) with
    | some after => rfl
    | none =>
      dsimp only [Option.map_none]
      by_cases hforeign : (m.isCode && 128 ≤ m.char.val) = true
      · simp only [if_pos hforeign]
        rfl
      · simp only [if_neg hforeign]
        -- the last character is the semicolon, and no word goes on behind it
        by_cases hms : ms = []
        · rw [hms] at h ⊢
          cases h
          rfl
        · rw [ih (@Ended.of_append _ [m] h hms)]
          cases seek words (isWordChar m.char) ms with
          | error fault => rfl
          | ok found =>
            cases found with
            | some f => rfl
            | none =>
              dsimp only [Except.map, Except.bind]
              cases seek words false ns with
              | error fault => rfl
              | ok found => cases found <;> rfl

/-! ## Behind keywords -/

theorem Ended.behind (h : Ended ms) (hws : AreKeywords words)
    (hf : seek words inWord ms = .ok (some f)) : Ended f.after := by
  obtain ⟨hms, keywords, hstart, hspelled, -⟩ := found_of_seek hws.ne_nil hf
  obtain ⟨m, keywords', hkeywords, -⟩ := hspelled.head hws
  have hend : Ended f.start := by
    rw [hms] at h
    apply h.of_append
    rw [hstart, hkeywords]
    exact List.cons_ne_nil m _
  obtain ⟨more, hne, hmore, -⟩ := @exists_behind _ [] _ _ hend hws _ hspelled
    (by rw [hstart, List.append_nil])
  rw [hstart] at hmore hend
  obtain rfl := List.append_cancel_left hmore
  exact hend.of_append hne

theorem Ended.dropWhile (h : Ended ms) : ∃ semicolon rest,
    ms.dropWhile (!·.isSemicolon) = semicolon :: rest ∧ (rest = [] ∨ Ended rest) := by
  cases hdrop : ms.dropWhile (!·.isSemicolon) with
  | nil =>
    have hall := List.dropWhile_eq_nil_iff.1 hdrop _ (List.mem_of_getLast? h)
    cases hall
  | cons semicolon rest =>
    refine ⟨semicolon, rest, rfl, or_iff_not_imp_left.2 fun hne => ?_⟩
    obtain ⟨front, hfront⟩ := List.dropWhile_suffix (l := ms) (!·.isSemicolon)
    rw [hdrop, List.append_cons] at hfront
    rw [← hfront] at h
    exact h.of_append hne

theorem dropWhile_append_of_cons {semicolon : Marked}
    (h : ms.dropWhile (!·.isSemicolon) = semicolon :: rest) (ns : List Marked) :
    (ms ++ ns).dropWhile (!·.isSemicolon) = semicolon :: (rest ++ ns) := by
  rw [List.dropWhile_append, h]
  rfl

end JpaScaffold.Ddl
