import JpaScaffold.Proofs.Ddl.Bytes

/-!
# Byte offsets and characters

A scan that counts in bytes stands between two characters or inside of one. Between two characters its
slices are the characters on both sides. Inside of a character, which is then outside ASCII, the mask
and the bytes still have entries, but no slice starts there.
-/
namespace JpaScaffold.Ddl

open Text (asciiByte isForeign utf8)

variable {s : Scanned} {pre post : List Marked} {m : Marked} {b : UInt8} {c : Char} {k : Nat}

/-! ## The bytes of a character in lower case -/

theorem toLower_of_foreign (h : isForeign c = true) : c.toLower = c := by
  have hc := Text.isForeign_iff.1 h
  refine dif_neg ?_
  rintro ⟨-, hle⟩
  have hle' : c.toNat ≤ 90 := UInt32.le_iff_toNat_le.1 hle
  omega

theorem forall_ascii {P : Char → Prop} (h : ∀ n < 128, P (Char.ofNat n)) (hc : isForeign c = false) :
    P c := by
  have hlt : c.toNat < 128 := by
    by_contra hge
    rw [Text.isForeign_iff.2 (by omega)] at hc
    cases hc
  rw [← Char.ofNat_toNat c]
  exact h _ hlt

def Marked.lowerBytes (m : Marked) : List UInt8 := String.utf8EncodeChar m.char.toLower

theorem lowerBytes_of_ascii (h : isForeign m.char = false) :
    m.lowerBytes = [asciiByte m.char.toLower] := by
  have hlower : isForeign m.char.toLower = false :=
    forall_ascii (P := fun c => isForeign c.toLower = false) (by decide) h
  exact Text.utf8EncodeChar_ascii hlower

theorem length_lowerBytes (m : Marked) : m.lowerBytes.length = m.char.utf8Size := by
  cases h : isForeign m.char with
  | true => rw [Marked.lowerBytes, toLower_of_foreign h, String.length_utf8EncodeChar]
  | false =>
    rw [lowerBytes_of_ascii h, ← String.length_utf8EncodeChar, Text.utf8EncodeChar_ascii h]
    rfl

theorem foreign_of_mem (h : isForeign m.char = true) (hb : b ∈ m.lowerBytes) : 128 ≤ b := by
  rw [Marked.lowerBytes, toLower_of_foreign h] at hb
  exact Text.ascii_lt_of_mem h hb

theorem forall_byte {P : UInt8 → Prop} (h : ∀ n < 256, P (UInt8.ofNat n)) (b : UInt8) : P b := by
  rw [← UInt8.ofNat_toNat (x := b)]
  exact h _ b.toNat_lt

theorem isWordByte_of_foreign : 128 ≤ b → isWordByte b = false :=
  forall_byte (P := fun b => 128 ≤ b → isWordByte b = false) (by decide +kernel) b

theorem isBlankByte_of_foreign : 128 ≤ b → isBlankByte b = false :=
  forall_byte (P := fun b => 128 ≤ b → isBlankByte b = false) (by decide +kernel) b

theorem isWordChar_of_foreign (h : isForeign c = true) : isWordChar c = false := by
  have hc : 128 ≤ c.val.toNat := Text.isForeign_iff.1 h
  have hne : c ≠ '_' := by
    rintro rfl
    cases h
  have hends : 'Z'.val.toNat < 128 ∧ 'z'.val.toNat < 128 ∧ '9'.val.toNat < 128 := by decide
  delta isWordChar Char.isAlphanum Char.isAlpha Char.isUpper Char.isLower Char.isDigit
  simp only [ge_iff_le, UInt32.le_iff_toNat_le, Bool.or_eq_false_iff, Bool.and_eq_false_iff,
    decide_eq_false_iff_not, beq_eq_false_iff_ne, hne, ne_eq, not_false_eq_true, and_true]
  omega

theorem isKeywordBlank_of_foreign (h : isForeign c = true) : isKeywordBlank c = false := by
  by_contra hblank
  simp only [isKeywordBlank, Bool.not_eq_false, Bool.or_eq_true, beq_iff_eq] at hblank
  rcases hblank with (((rfl | rfl) | rfl) | rfl) | rfl <;> cases h

theorem isWordByte_of_mem (hb : b ∈ m.lowerBytes) : isWordByte b = isWordChar m.char := by
  cases h : isForeign m.char with
  | true => rw [isWordChar_of_foreign h, isWordByte_of_foreign (foreign_of_mem h hb)]
  | false =>
    rw [lowerBytes_of_ascii h] at hb
    rw [List.mem_singleton.1 hb]
    exact forall_ascii (P := fun c => isWordByte (asciiByte c.toLower) = isWordChar c) (by decide) h

theorem isBlankByte_of_mem (hb : b ∈ m.lowerBytes) : isBlankByte b = isKeywordBlank m.char := by
  cases h : isForeign m.char with
  | true => rw [isKeywordBlank_of_foreign h, isBlankByte_of_foreign (foreign_of_mem h hb)]
  | false =>
    rw [lowerBytes_of_ascii h] at hb
    rw [List.mem_singleton.1 hb]
    exact forall_ascii (P := fun c => isBlankByte (asciiByte c.toLower) = isKeywordBlank c)
      (by decide) h

theorem semicolon_of_mem (hb : b ∈ m.lowerBytes) : b = asciiByte ';' ↔ m.char = ';' := by
  cases h : isForeign m.char with
  | true =>
    refine iff_of_false ?_ ?_
    · rintro rfl
      exact absurd (foreign_of_mem h hb) (by decide)
    · intro hc
      rw [hc] at h
      cases h
  | false =>
    rw [lowerBytes_of_ascii h] at hb
    rw [List.mem_singleton.1 hb]
    exact forall_ascii (P := fun c => asciiByte c.toLower = asciiByte ';' ↔ c = ';') (by decide) h

/-! ## Cutting between two characters -/

def byteLength (cs : List Char) : Nat := (cs.map Char.utf8Size).sum

@[simp] theorem byteLength_nil : byteLength [] = 0 := rfl

@[simp] theorem byteLength_cons (c : Char) (cs : List Char) :
    byteLength (c :: cs) = c.utf8Size + byteLength cs := rfl

@[simp] theorem byteLength_append (cs ds : List Char) :
    byteLength (cs ++ ds) = byteLength cs + byteLength ds := by
  simp [byteLength]

theorem byteLength_utf8 (cs : List Char) : (utf8 cs).length = byteLength cs := by
  rw [utf8, List.length_flatMap]
  simp [byteLength]

theorem cutAt_byteLength (cs ds : List Char) : cutAt (byteLength cs) (cs ++ ds) = some (cs, ds) := by
  induction cs with
  | nil => rw [byteLength_nil, cutAt, List.nil_append]
  | cons c cs ih =>
    have hpos := c.utf8Size_pos
    rw [byteLength_cons, List.cons_append]
    obtain ⟨n, hn⟩ : ∃ n, c.utf8Size + byteLength cs = n + 1 := ⟨c.utf8Size + byteLength cs - 1, by omega⟩
    rw [hn, cutAt, if_pos (by omega), ← hn, Nat.add_sub_cancel_left, ih]
    rfl

theorem cutAt_inside (cs ds : List Char) (hpos : 0 < k) (hlt : k < c.utf8Size) :
    cutAt (byteLength cs + k) (cs ++ c :: ds) = none := by
  induction cs with
  | nil =>
    obtain ⟨n, rfl⟩ : ∃ n, k = n + 1 := ⟨k - 1, by omega⟩
    rw [byteLength_nil, Nat.zero_add, List.nil_append, cutAt, if_neg (by omega)]
  | cons d cs ih =>
    have hd := d.utf8Size_pos
    rw [byteLength_cons, List.cons_append]
    obtain ⟨n, hn⟩ : ∃ n, d.utf8Size + byteLength cs + k = n + 1 :=
      ⟨d.utf8Size + byteLength cs + k - 1, by omega⟩
    rw [hn, cutAt, if_pos (by omega), ← hn, Nat.add_assoc, Nat.add_sub_cancel_left, ih]
    rfl

/-! ## Standing in a script -/

def size (ms : List Marked) : Nat := byteLength (unmark ms)

/-- A scan stands behind the characters `pre` and in front of the characters `post`. -/
structure Between (s : Scanned) (pre post : List Marked) : Prop where
  text : s.text = unmark (pre ++ post)
  lower : s.lower = (unmark (pre ++ post)).map Char.toLower
  mask : s.mask = (pre ++ post).flatMap Marked.byteMarks

theorem between_of (cs : List Char) : Between (.of cs) [] (marked cs) where
  text := (unmark_marked cs).symm
  lower := by
    rw [List.nil_append, unmark_marked]
    rfl
  mask := byteMask_utf8 .code cs

theorem Between.shift {ms : List Marked} (h : Between s pre (ms ++ post)) :
    Between s (pre ++ ms) post := by
  obtain ⟨htext, hlower, hmask⟩ := h
  rw [← List.append_assoc] at htext hlower hmask
  exact ⟨htext, hlower, hmask⟩

@[simp] theorem size_nil : size [] = 0 := rfl

@[simp] theorem size_cons (m : Marked) (ms : List Marked) :
    size (m :: ms) = m.char.utf8Size + size ms := rfl

@[simp] theorem size_append (ms ms' : List Marked) : size (ms ++ ms') = size ms + size ms' := by
  simp [size, unmark]

section Entries

variable {α : Type} {f : Marked → List α} {x : α}

theorem length_flatMap_of_size (hf : ∀ m, (f m).length = m.char.utf8Size) (ms : List Marked) :
    (ms.flatMap f).length = size ms := by
  induction ms with
  | nil => rfl
  | cons m ms ih => rw [List.flatMap_cons, List.length_append, ih, hf, size_cons]

/-- What is said of the bytes of a character is found behind the bytes of those in front. -/
theorem entry_flatMap (hf : ∀ m, (f m).length = m.char.utf8Size) (hx : (f m)[k]? = some x) :
    entry ((pre ++ m :: post).flatMap f) (size pre + k) = .ok x := by
  obtain ⟨hk, -⟩ := List.getElem?_eq_some_iff.1 hx
  have hget : ((pre ++ m :: post).flatMap f)[size pre + k]? = some x := by
    rw [List.flatMap_append, List.flatMap_cons, ← length_flatMap_of_size hf pre,
      List.getElem?_append_right (Nat.le_add_right ..), Nat.add_sub_cancel_left,
      List.getElem?_append_left hk, hx]
  rw [entry, hget]

end Entries

def lowered (ms : List Marked) : List Char := (unmark ms).map Char.toLower

theorem utf8Size_toLower (c : Char) : c.toLower.utf8Size = c.utf8Size := by
  rw [← String.length_utf8EncodeChar]
  exact length_lowerBytes ⟨c, true⟩

theorem byteLength_lowered (ms : List Marked) : byteLength (lowered ms) = size ms := by
  induction ms with
  | nil => rfl
  | cons m ms ih => rw [size_cons, ← utf8Size_toLower, ← ih]; rfl

theorem length_byteMarks (m : Marked) : m.byteMarks.length = m.char.utf8Size := List.length_replicate

namespace Between

theorem bytes_eq (h : Between s pre post) : s.bytes = (pre ++ post).flatMap Marked.lowerBytes := by
  rw [Scanned.bytes, h.lower, utf8, unmark, List.map_map, List.flatMap_map]
  rfl

theorem length_bytes (h : Between s pre post) : s.bytes.length = size pre + size post := by
  rw [h.bytes_eq, length_flatMap_of_size length_lowerBytes, size_append]

theorem next (h : Between s pre (m :: post)) : Between s (pre ++ [m]) post :=
  Between.shift h

theorem lt_length (h : Between s pre (m :: post)) (hk : k < m.char.utf8Size) :
    size pre + k < s.bytes.length := by
  rw [h.length_bytes, size_cons]
  omega

theorem entry_mask (h : Between s pre (m :: post)) (hk : k < m.char.utf8Size) :
    entry s.mask (size pre + k) = .ok m.isCode := by
  rw [h.mask]
  exact entry_flatMap length_byteMarks (by simp [Marked.byteMarks, hk])

theorem entry_bytes (h : Between s pre (m :: post)) (hk : k < m.char.utf8Size) :
    ∃ b ∈ m.lowerBytes, entry s.bytes (size pre + k) = .ok b := by
  rw [← length_lowerBytes] at hk
  rw [h.bytes_eq]
  exact ⟨_, List.getElem_mem hk, entry_flatMap length_lowerBytes (List.getElem?_eq_getElem hk)⟩

theorem slices_text (h : Between s pre post) :
    slicesAt s.text (size pre) = .ok (unmark pre, unmark post) := by
  have happend : unmark (pre ++ post) = unmark pre ++ unmark post := List.map_append
  rw [h.text, slicesAt, happend, size, cutAt_byteLength]

theorem lower_eq (h : Between s pre post) : s.lower = lowered pre ++ lowered post := by
  rw [h.lower, unmark, List.map_append, List.map_append]
  rfl

theorem slices_lower (h : Between s pre post) :
    slicesAt s.lower (size pre) = .ok (lowered pre, lowered post) := by
  rw [h.lower_eq, slicesAt, ← byteLength_lowered, cutAt_byteLength]

theorem slices_inside (h : Between s pre (m :: post)) (hpos : 0 < k) (hlt : k < m.char.utf8Size) :
    slicesAt s.lower (size pre + k) = .error (.slice (size pre + k)) := by
  rw [← utf8Size_toLower] at hlt
  have hpost : lowered (m :: post) = m.char.toLower :: lowered post := rfl
  rw [h.lower_eq, slicesAt, ← byteLength_lowered, hpost, cutAt_inside _ _ hpos hlt]

end Between

end JpaScaffold.Ddl
