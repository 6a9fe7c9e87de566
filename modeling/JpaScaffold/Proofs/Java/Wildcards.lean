import JpaScaffold.Proofs.Java.TypeText
import JpaScaffold.Proofs.Java.UnitParts

/-!
# Wildcards in dotted names

A dotted name is simple names with points between them, or simple names with a star behind them.
Packages, annotations, the names in a type at every depth and imports are all read by this one rule,
so that a star is let through wherever a dotted name may stand, and not behind imports alone.
-/
namespace JpaScaffold.Java

variable {name : String} {segments : List (List Char)}

/-- Every segment of the name is a simple name. -/
def Plain (name : String) : Prop :=
  ∀ s ∈ name.toList.splitOnP (· == '.'), isSimpleName s = true

instance (name : String) : Decidable (Plain name) :=
  inferInstanceAs (Decidable (∀ s ∈ name.toList.splitOnP (· == '.'), isSimpleName s = true))

/-- The name has simple names, at least one, and a star as its last segment. -/
def Starred (name : String) : Prop :=
  ∃ front : List (List Char), front ≠ [] ∧ (∀ s ∈ front, isSimpleName s = true) ∧
    name.toList.splitOnP (· == '.') = front ++ [['*']]

theorem not_plain_of_starred (h : Starred name) : ¬Plain name := by
  obtain ⟨front, -, -, hsegments⟩ := h
  intro hplain
  have hstar : isSimpleName ['*'] = true := hplain ['*'] (by simp [hsegments])
  revert hstar
  decide

theorem areSegments_concat_star (h : ∀ s ∈ segments, isSimpleName s = true) :
    areSegments (segments ++ [['*']]) = true := by
  induction segments with
  | nil => rfl
  | cons s rest ih =>
    obtain ⟨hs, hrest⟩ := List.forall_mem_cons.1 h
    obtain ⟨r, more, hmore⟩ := List.exists_cons_of_ne_nil (List.concat_ne_nil ['*'] rest)
    have hbehind := ih hrest
    rw [hmore] at hbehind
    rw [List.cons_append, hmore]
    exact Bool.and_eq_true_iff.2 ⟨hs, hbehind⟩

theorem simple_or_concat_star (h : areSegments segments = true) :
    (∀ s ∈ segments, isSimpleName s = true) ∨
      ∃ front, (∀ s ∈ front, isSimpleName s = true) ∧ segments = front ++ [['*']] := by
  induction segments with
  | nil => exact .inl (List.forall_mem_nil _)
  | cons s rest ih =>
    cases rest with
    | nil =>
      simp only [areSegments, Bool.or_eq_true, beq_iff_eq] at h
      rcases h with hs | rfl
      · exact .inl (List.forall_mem_singleton.2 hs)
      · exact .inr ⟨[], List.forall_mem_nil _, rfl⟩
    | cons r more =>
      obtain ⟨hs, hrest⟩ := Bool.and_eq_true_iff.1 h
      rcases ih hrest with hall | ⟨front, hfront, hsplit⟩
      · exact .inl (List.forall_mem_cons.2 ⟨hs, hall⟩)
      · exact .inr ⟨s :: front, List.forall_mem_cons.2 ⟨hs, hfront⟩, by rw [hsplit]; rfl⟩

/-- A dotted name is made of simple names, or of simple names and a star. -/
theorem isQualifiedName_iff :
    isQualifiedName name.toList = true ↔ Plain name ∨ Starred name := by
  constructor
  · intro h
    unfold isQualifiedName at h
    split at h
    · next only honly => exact .inl (by rw [Plain, honly]; exact List.forall_mem_singleton.2 h)
    · next hmany =>
      rcases simple_or_concat_star h with hall | ⟨front, hfront, hsplit⟩
      · exact .inl hall
      · refine .inr ⟨front, ?_, hfront, hsplit⟩
        rintro rfl
        exact hmany _ hsplit
  · rintro (h | ⟨front, hne, hfront, hsplit⟩)
    · exact isQualifiedName_of_simple h
    · have hstar := areSegments_concat_star hfront
      obtain ⟨s, rest, rfl⟩ := List.exists_cons_of_ne_nil hne
      obtain ⟨r, more, hmore⟩ := List.exists_cons_of_ne_nil (List.concat_ne_nil ['*'] rest)
      rw [List.cons_append, hmore] at hsplit hstar
      rw [isQualifiedName, hsplit]
      exact hstar

/-! ## The names in a type -/

namespace TypeRef

/-- The name stands in the type, at whatever depth. -/
inductive Mentions : TypeRef → String → Prop
  | name (name : String) (args : List TypeRef) (dims : Nat) : Mentions (.mk name args dims) name
  | arg {a : TypeRef} {n name : String} {args : List TypeRef} {dims : Nat} (ha : a ∈ args)
    (h : Mentions a n) : Mentions (.mk name args dims) n

theorem Named.of_mentions {t : TypeRef} {n : String} (h : t.Named) (hn : t.Mentions n) :
    isQualifiedName n.toList = true := by
  induction hn with
  | name =>
    cases h with
    | mk hname _ => exact hname
  | arg ha _ ih =>
    cases h with
    | mk _ hargs => exact ih (hargs _ ha)

theorem named_of_mentions :
    ∀ t : TypeRef, (∀ n, t.Mentions n → isQualifiedName n.toList = true) → t.Named
  | .mk name args dims, h =>
    .mk (h name (.name name args dims)) fun a ha =>
      named_of_mentions a fun n hn => h n (.arg ha hn)

end TypeRef

theorem buildAttributes_eq_ok {given : List (String × AttributeValue)} {attributes : List Attribute} :
    given.mapM buildAttribute = .ok attributes ↔
      (∀ a ∈ given, isSimpleName a.1.toList = true) ∧
        attributes = given.map fun a => ⟨a.1, a.2⟩ := by
  refine mapM_checked_eq_ok fun {a built} => ?_
  unfold buildAttribute
  rw [map_eq_ok]
  constructor
  · rintro ⟨key, hkey, rfl⟩
    obtain ⟨hsimple, rfl⟩ := simpleName_eq_ok.1 hkey
    exact ⟨hsimple, rfl⟩
  · rintro ⟨hsimple, rfl⟩
    exact ⟨a.1, simpleName_eq_ok.2 ⟨hsimple, rfl⟩, rfl⟩

theorem add_package_eq_ok {d d' : UnitDraft} (hd : d.package = none) :
    d.add (.package name) = .ok d' ↔
      isQualifiedName name.toList = true ∧ d' = { d with package := some name } := by
  rw [UnitDraft.add, hd, map_eq_ok]
  constructor
  · rintro ⟨name', hname, rfl⟩
    obtain ⟨hqualified, rfl⟩ := qualifiedName_eq_ok.1 hname
    exact ⟨hqualified, rfl⟩
  · rintro ⟨hqualified, rfl⟩
    exact ⟨name, qualifiedName_eq_ok.2 ⟨hqualified, rfl⟩, rfl⟩

theorem buildMarker_eq_ok {attributes : List (String × AttributeValue)} {marker : Marker} :
    buildMarker name attributes = .ok marker ↔
      isQualifiedName name.toList = true ∧ (∀ a ∈ attributes, isSimpleName a.1.toList = true) ∧
        marker = ⟨name, attributes.map fun a => ⟨a.1, a.2⟩⟩ := by
  rw [buildMarker, bind_eq_ok]
  constructor
  · rintro ⟨name', hname, h⟩
    obtain ⟨hqualified, rfl⟩ := qualifiedName_eq_ok.1 hname
    obtain ⟨built, hbuilt, h⟩ := bind_eq_ok.1 h
    obtain ⟨hsimple, rfl⟩ := buildAttributes_eq_ok.1 hbuilt
    cases h
    exact ⟨hqualified, hsimple, rfl⟩
  · rintro ⟨hqualified, hsimple, rfl⟩
    refine ⟨name, qualifiedName_eq_ok.2 ⟨hqualified, rfl⟩, ?_⟩
    rw [buildAttributes_eq_ok.2 ⟨hsimple, rfl⟩]
    rfl

/-- Packages, annotations, types and imports accept the same names: those whose segments are simple
names, and those whose segments are simple names and a star at the end. So a name that does not end
in a star is accepted only if its segments are simple names; the others are let through everywhere. -/
theorem accepted_names (name : String) :
    (Starred name → ¬Plain name) ∧
    (∀ d d' : UnitDraft, d.package = none →
      (d.add (.package name) = .ok d' ↔
        (Plain name ∨ Starred name) ∧ d' = { d with package := some name })) ∧
    (∀ attributes marker, buildMarker name attributes = .ok marker ↔
      (Plain name ∨ Starred name) ∧ (∀ a ∈ attributes, isSimpleName a.1.toList = true) ∧
        marker = ⟨name, attributes.map fun a => ⟨a.1, a.2⟩⟩) ∧
    (∀ source t, TypeRef.parse source = .ok t → t.Mentions name → Plain name ∨ Starred name) ∧
    (∀ t : TypeRef, (∀ n, t.Mentions n → Plain n ∨ Starred n) → TypeRef.parse t.text = .ok t) ∧
    ∀ names s, ImportSet.addAll {} names = .ok s ↔
      (∀ n ∈ names.map (Text.mapChars Text.trim), Plain n ∨ Starred n) ∧
        s = ⟨(names.map (Text.mapChars Text.trim)).eraseDups⟩ := by
  refine ⟨not_plain_of_starred, fun d d' hd => ?_, fun attributes marker => ?_,
    fun source t h hn => ?_, fun t h => ?_, fun names s => ?_⟩
  · rw [add_package_eq_ok hd, isQualifiedName_iff]
  · rw [buildMarker_eq_ok, isQualifiedName_iff]
  · exact isQualifiedName_iff.1 ((TypeRef.named_of_parse h).of_mentions hn)
  · refine TypeRef.parse_text (TypeRef.named_of_mentions t fun n hn => ?_)
    exact isQualifiedName_iff.2 (h n hn)
  · have hadd := @ImportSet.addAll_eq_ok s names [] (List.forall_mem_nil _)
    simp only [isQualifiedName_iff, List.nil_append] at hadd
    exact hadd

/-- A map from texts to an array of all that a package holds. -/
def starMap : TypeRef := .mk "Map" [.mk "String" [] 0, .mk "java.util.*" [] 1] 0

theorem starred_acme : Starred "com.acme.*" :=
  ⟨["com".toList, "acme".toList], by simp, by decide, by decide⟩

theorem accepted_names_of_stars :
    Starred "com.acme.*" ∧ ¬Plain "com.acme.*" ∧
      UnitDraft.add {} (.package "com.acme.*") = .ok { package := some "com.acme.*" } ∧
      buildMarker "com.acme.*" [("name", .string "a")] = .ok ⟨"com.acme.*", [⟨"name", .string "a"⟩]⟩ ∧
      TypeRef.parse "Map<String, java.util.*[]>" = .ok starMap ∧
      starMap.Mentions "java.util.*" ∧ Starred "java.util.*" := by
  obtain ⟨hdisjoint, hpackage, hmarker, -, hparse, -⟩ := accepted_names "com.acme.*"
  have hutil : Starred "java.util.*" := ⟨["java".toList, "util".toList], by simp, by decide, by decide⟩
  have hnames : ∀ n, starMap.Mentions n → Plain n ∨ Starred n := by
    intro n hn
    cases hn with
    | name => exact .inl (by decide)
    | arg ha h =>
      rcases List.mem_pair.1 ha with rfl | rfl
      · cases h with
        | name => exact .inl (by decide)
        | arg ha _ => cases ha
      · cases h with
        | name => exact .inr hutil
        | arg ha _ => cases ha
  refine ⟨starred_acme, hdisjoint starred_acme, (hpackage _ _ rfl).2 ⟨.inr starred_acme, rfl⟩,
    (hmarker _ _).2 ⟨.inr starred_acme, by decide, rfl⟩, hparse starMap hnames,
    .arg (List.mem_pair.2 (.inr rfl)) (.name _ _ _), hutil⟩

end JpaScaffold.Java
