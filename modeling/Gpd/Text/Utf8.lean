import Mathlib

/-! The byte sequences that encode a character in UTF-8, by the ranges of their bytes. -/
namespace Gpd.Text

def Utf8Tail (b : UInt8) : Prop := 0x80 ≤ b.toNat ∧ b.toNat ≤ 0xBF

/-- The second byte of a long sequence: no overlong form, no surrogate, nothing above
U+10FFFF. -/
structure Utf8Second (a b : UInt8) : Prop where
  tail : Utf8Tail b
  overlongThree : a.toNat = 0xE0 → 0xA0 ≤ b.toNat
  surrogate : a.toNat = 0xED → b.toNat ≤ 0x9F
  overlongFour : a.toNat = 0xF0 → 0x90 ≤ b.toNat
  large : a.toNat = 0xF4 → b.toNat ≤ 0x8F

inductive Utf8 : List UInt8 → Prop
  | one {a : UInt8} : a.toNat < 0x80 → Utf8 [a]
  | two {a b : UInt8} : 0xC2 ≤ a.toNat → a.toNat < 0xE0 → Utf8Tail b → Utf8 [a, b]
  | three {a b c : UInt8} : 0xE0 ≤ a.toNat → a.toNat < 0xF0 → Utf8Second a b → Utf8Tail c →
      Utf8 [a, b, c]
  | four {a b c d : UInt8} : 0xF0 ≤ a.toNat → a.toNat ≤ 0xF4 → Utf8Second a b → Utf8Tail c →
      Utf8Tail d → Utf8 [a, b, c, d]

lemma toNat_ofNat_byte {n : ℕ} (h : n < 256) : (UInt8.ofNat n).toNat = n :=
  UInt8.toNat_ofNat_of_lt' h

lemma char_range (c : Char) : c.toNat < 0xD800 ∨ 0xDFFF < c.toNat ∧ c.toNat < 0x110000 := c.valid

theorem utf8_encodeChar (c : Char) : Utf8 (String.utf8EncodeChar c) := by
  have hc := char_range c
  rw [Char.toNat] at hc
  unfold String.utf8EncodeChar
  generalize c.val.toNat = v at hc
  dsimp only
  split_ifs with h1 h2 h3
  · exact .one (by rw [toNat_ofNat_byte (by omega)]; omega)
  · refine .two ?_ ?_ ⟨?_, ?_⟩ <;> rw [toNat_ofNat_byte (by omega)] <;> omega
  · refine .three ?_ ?_ ⟨⟨?_, ?_⟩, ?_, ?_, ?_, ?_⟩ ⟨?_, ?_⟩ <;>
      repeat rw [toNat_ofNat_byte (by omega)]
    all_goals omega
  · refine .four ?_ ?_ ⟨⟨?_, ?_⟩, ?_, ?_, ?_, ?_⟩ ⟨?_, ?_⟩ ⟨?_, ?_⟩ <;>
      repeat rw [toNat_ofNat_byte (by omega)]
    all_goals omega

lemma encodeChar_of_lt {c : Char} (h : c.toNat < 0x80) :
    String.utf8EncodeChar c = [UInt8.ofNat c.toNat] := by
  rw [Char.toNat] at h
  unfold String.utf8EncodeChar
  dsimp only
  rw [if_pos (by omega)]
  rfl

lemma length_encodeChar_of_le {c : Char} (h : 0x80 ≤ c.toNat) :
    1 < (String.utf8EncodeChar c).length := by
  rw [Char.toNat] at h
  unfold String.utf8EncodeChar
  dsimp only
  rw [if_neg (by omega)]
  split_ifs <;> simp

lemma Utf8.le_of_mem {u : List UInt8} (h : Utf8 u) (hlong : 1 < u.length) :
    ∀ b ∈ u, 0x80 ≤ b.toNat := by
  intro x hx
  cases h with
  | one => simp at hlong
  | two ha _ hb =>
    simp only [List.mem_cons, List.not_mem_nil, or_false] at hx
    rcases hx with rfl | rfl
    · omega
    · exact hb.1
  | three ha _ hb hc =>
    simp only [List.mem_cons, List.not_mem_nil, or_false] at hx
    rcases hx with rfl | rfl | rfl
    · omega
    · exact hb.tail.1
    · exact hc.1
  | four ha _ hb hc hd =>
    simp only [List.mem_cons, List.not_mem_nil, or_false] at hx
    rcases hx with rfl | rfl | rfl | rfl
    · omega
    · exact hb.tail.1
    · exact hc.1
    · exact hd.1

lemma exists_char {n : ℕ} (h : n < 0xD800 ∨ 0xDFFF < n ∧ n < 0x110000) :
    ∃ c : Char, c.val.toNat = n :=
  ⟨Char.ofNatAux n h, by simp [Char.ofNatAux]⟩

lemma byte_eq_ofNat {b : UInt8} {n : ℕ} (h : b.toNat = n) : b = UInt8.ofNat n := by
  rw [← h, UInt8.ofNat_toNat]

/-- Every such sequence is the code of a character. -/
theorem Utf8.exists_char {u : List UInt8} (h : Utf8 u) :
    ∃ c : Char, String.utf8EncodeChar c = u := by
  cases h with
  | @one a ha =>
    obtain ⟨c, hc⟩ := Text.exists_char (n := a.toNat) (by omega)
    refine ⟨c, ?_⟩
    unfold String.utf8EncodeChar
    rw [hc]
    dsimp only
    rw [if_pos (by omega), UInt8.ofNat_toNat]
  | @two a b ha ha' hb =>
    obtain ⟨hb, hb'⟩ := hb
    obtain ⟨c, hc⟩ := Text.exists_char (n := (a.toNat - 0xC0) * 64 + (b.toNat - 0x80)) (by omega)
    refine ⟨c, ?_⟩
    unfold String.utf8EncodeChar
    rw [hc]
    dsimp only
    rw [if_neg (by omega), if_pos (by omega)]
    refine congrArg₂ _ (byte_eq_ofNat ?_).symm (congrArg₂ _ (byte_eq_ofNat ?_).symm rfl) <;> omega
  | @three a b c ha ha' hb hc =>
    obtain ⟨⟨hb, hb'⟩, h1, h2, -, -⟩ := hb
    obtain ⟨hc, hc'⟩ := hc
    obtain ⟨x, hx⟩ := Text.exists_char
      (n := (a.toNat - 0xE0) * 4096 + (b.toNat - 0x80) * 64 + (c.toNat - 0x80)) (by omega)
    refine ⟨x, ?_⟩
    unfold String.utf8EncodeChar
    rw [hx]
    dsimp only
    rw [if_neg (by omega), if_neg (by omega), if_pos (by omega)]
    refine congrArg₂ _ (byte_eq_ofNat ?_).symm (congrArg₂ _ (byte_eq_ofNat ?_).symm
      (congrArg₂ _ (byte_eq_ofNat ?_).symm rfl)) <;> omega
  | @four a b c d ha ha' hb hc hd =>
    obtain ⟨⟨hb, hb'⟩, -, -, h1, h2⟩ := hb
    obtain ⟨hc, hc'⟩ := hc
    obtain ⟨hd, hd'⟩ := hd
    obtain ⟨x, hx⟩ := Text.exists_char
      (n := (a.toNat - 0xF0) * 262144 + (b.toNat - 0x80) * 4096 + (c.toNat - 0x80) * 64 +
        (d.toNat - 0x80)) (by omega)
    refine ⟨x, ?_⟩
    unfold String.utf8EncodeChar
    rw [hx]
    dsimp only
    rw [if_neg (by omega), if_neg (by omega), if_neg (by omega)]
    refine congrArg₂ _ (byte_eq_ofNat ?_).symm (congrArg₂ _ (byte_eq_ofNat ?_).symm
      (congrArg₂ _ (byte_eq_ofNat ?_).symm (congrArg₂ _ (byte_eq_ofNat ?_).symm rfl))) <;> omega

end Gpd.Text
