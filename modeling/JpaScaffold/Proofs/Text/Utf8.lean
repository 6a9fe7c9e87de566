import JpaScaffold.Text.Utf8
import Mathlib.Data.UInt
import Mathlib.Tactic.Common

/-!
# The bytes of a character

A character of ASCII is one byte below 128. Every other character starts with a byte from 192 on and
goes on with bytes from 128 to 191, which stand nowhere else: they are the places inside of a
character.
-/
namespace JpaScaffold.Text

def asciiByte (c : Char) : UInt8 := UInt8.ofNat c.toNat

def isContinuation (b : UInt8) : Bool := 128 ≤ b && b < 192

def isForeign (c : Char) : Bool := 128 ≤ c.val

theorem isForeign_iff {c : Char} : isForeign c = true ↔ 128 ≤ c.toNat := by
  simp [isForeign, UInt32.le_iff_toNat_le]

theorem toNat_asciiByte {c : Char} (h : isForeign c = false) : (asciiByte c).toNat = c.toNat := by
  have hc : ¬128 ≤ c.toNat := by
    rw [← isForeign_iff, h]
    decide
  rw [asciiByte, UInt8.toNat_ofNat']
  omega

theorem utf8EncodeChar_ascii {c : Char} (h : isForeign c = false) :
    String.utf8EncodeChar c = [asciiByte c] := by
  have hc : ¬128 ≤ c.toNat := by
    rw [← isForeign_iff, h]
    decide
  have hsmall : c.val.toNat ≤ 127 := by
    change c.toNat ≤ 127
    omega
  rw [String.utf8EncodeChar, if_pos hsmall]
  rfl

theorem utf8EncodeChar_foreign {c : Char} (h : isForeign c = true) :
    ∃ b tail, String.utf8EncodeChar c = b :: tail ∧ 192 ≤ b ∧ tail ≠ [] ∧
      ∀ t ∈ tail, isContinuation t = true := by
  have hc : ¬c.val.toNat ≤ 127 := by
    have hforeign : 128 ≤ c.val.toNat := isForeign_iff.1 h
    omega
  have hfirst (n : Nat) (k : Nat) (hk : 192 ≤ k) (hn : n < 256 - k) : 192 ≤ UInt8.ofNat (n + k) := by
    rw [UInt8.le_iff_toNat_le, UInt8.toNat_ofNat']
    change 192 ≤ _
    omega
  have htail (l : List Nat) :
      ∀ t ∈ l.map fun n => UInt8.ofNat (n % 64 + 128), isContinuation t = true := by
    intro t ht
    obtain ⟨n, -, rfl⟩ := List.mem_map.1 ht
    rw [isContinuation, Bool.and_eq_true, decide_eq_true_eq, decide_eq_true_eq,
      UInt8.le_iff_toNat_le, UInt8.lt_iff_toNat_lt, UInt8.toNat_ofNat']
    change 128 ≤ _ ∧ _ < 192
    omega
  rw [String.utf8EncodeChar, if_neg hc]
  split
  · exact ⟨_, _, rfl, hfirst _ _ (by omega) (by omega), by simp, htail [_]⟩
  · split
    · exact ⟨_, _, rfl, hfirst _ _ (by omega) (by omega), by simp, htail [_, _]⟩
    · exact ⟨_, _, rfl, hfirst _ _ (by omega) (by omega), by simp, htail [_, _, _]⟩

theorem ascii_lt_of_mem {c : Char} {b : UInt8} (h : isForeign c = true)
    (hb : b ∈ String.utf8EncodeChar c) : 128 ≤ b := by
  obtain ⟨first, tail, hencode, hfirst, -, htail⟩ := utf8EncodeChar_foreign h
  rw [hencode] at hb
  rcases List.mem_cons.1 hb with rfl | hb
  · exact UInt8.le_trans (by decide) hfirst
  · have hcont := htail b hb
    rw [isContinuation, Bool.and_eq_true, decide_eq_true_eq] at hcont
    exact hcont.1

@[simp] theorem utf8_nil : utf8 [] = [] := rfl

theorem utf8_cons (c : Char) (cs : List Char) : utf8 (c :: cs) = String.utf8EncodeChar c ++ utf8 cs :=
  List.flatMap_cons

theorem utf8_append (cs ds : List Char) : utf8 (cs ++ ds) = utf8 cs ++ utf8 ds :=
  List.flatMap_append

end JpaScaffold.Text
