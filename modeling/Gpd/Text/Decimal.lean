import Mathlib

/-! Decimal numerals as byte strings: printing without leading zeros, reading
digit by digit, and the round trip between the two. -/
namespace Gpd.Text

def isDigit (b : UInt8) : Bool := 48 ≤ b && b ≤ 57

/-- The decimal numeral of a number, most significant digit first. -/
def decimal (n : ℕ) : List UInt8 := (Nat.toDigits 10 n).map Char.toUInt8

def readDecimal (ds : List UInt8) : ℕ := ds.foldl (fun acc d => 10 * acc + (d.toNat - 48)) 0

lemma toNat_toUInt8_of_isDigit {c : Char} (h : c.isDigit) : c.toUInt8.toNat = c.toNat := by
  simp only [Char.isDigit, Bool.and_eq_true, decide_eq_true_eq] at h
  have h' : c.toNat ≤ 57 := h.2
  change c.toNat % 2 ^ 8 = c.toNat
  omega

lemma isDigit_toUInt8 {c : Char} (h : c.isDigit) : isDigit c.toUInt8 = true := by
  have he := toNat_toUInt8_of_isDigit h
  simp only [Char.isDigit, Bool.and_eq_true, decide_eq_true_eq] at h
  have h1 : 48 ≤ c.toNat := h.1
  have h2 : c.toNat ≤ 57 := h.2
  simp only [isDigit, Bool.and_eq_true, decide_eq_true_eq, UInt8.le_iff_toNat_le, he]
  exact ⟨h1, h2⟩

lemma isDigit_of_mem_decimal {n : ℕ} {b : UInt8} (h : b ∈ decimal n) : isDigit b = true := by
  obtain ⟨c, hc, rfl⟩ := List.mem_map.mp h
  exact isDigit_toUInt8 (Nat.isDigit_of_mem_toDigits (by decide) (by decide) hc)

lemma decimal_ne_nil (n : ℕ) : decimal n ≠ [] := by simp [decimal]

lemma readDecimal_map {cs : List Char} (h : ∀ c ∈ cs, c.isDigit) :
    readDecimal (cs.map Char.toUInt8) = Nat.ofDigitChars 10 cs 0 := by
  unfold readDecimal
  generalize 0 = acc
  induction cs generalizing acc with
  | nil => rfl
  | cons c cs ih =>
    have hc := toNat_toUInt8_of_isDigit (h c (by simp))
    simp only [List.map_cons, List.foldl_cons, Nat.ofDigitChars_cons, hc]
    exact ih (fun d hd => h d (by simp [hd])) _

@[simp] theorem readDecimal_decimal (n : ℕ) : readDecimal (decimal n) = n := by
  unfold decimal
  rw [readDecimal_map fun c hc => Nat.isDigit_of_mem_toDigits (by decide) (by decide) hc]
  exact Nat.ofDigitChars_ten_toDigits

lemma toUInt8_digitChar {d : ℕ} (h : d < 10) :
    (Nat.digitChar d).toUInt8 = UInt8.ofNat (48 + d) := by
  revert d
  decide

theorem decimal_eq (n : ℕ) : decimal n =
    (if n < 10 then [] else decimal (n / 10)) ++ [UInt8.ofNat (48 + n % 10)] := by
  unfold decimal
  rw [Nat.toDigits_eq_if (by decide)]
  split_ifs with h
  · rw [Nat.mod_eq_of_lt h, ← toUInt8_digitChar h]
    rfl
  · rw [← toUInt8_digitChar (Nat.mod_lt n (by decide)), List.map_append]
    rfl

end Gpd.Text
