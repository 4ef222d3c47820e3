import Gpd.Jsonparser.Dump

/-! What `numtostr` writes is the text of a number, which reads as the number again. -/
namespace Gpd.Jsonparser
open Text Cxx

section Integers

lemma digitLoop_eq {n : ℕ} {x : ℤ} (hx : x ≠ 0) (hn : x.natAbs < 10 ^ n) :
    digitLoop n x = (decimal x.natAbs).reverse := by
  induction n generalizing x with
  | zero => omega
  | succ n ih =>
    have hdiv : (x.tdiv 10).natAbs = x.natAbs / 10 := Int.natAbs_tdiv x 10
    have hmod : (x.tmod 10).natAbs = x.natAbs % 10 := Int.natAbs_tmod x 10
    rw [digitLoop, if_neg hx, decimal_eq, hmod]
    split_ifs with hlt
    · have hzero : x.tdiv 10 = 0 := by omega
      cases n <;> simp [hzero, digitLoop]
    · rw [ih (by omega) (by rw [pow_succ] at hn; omega), hdiv, List.reverse_append]
      rfl

/-- Every number of 64 bits fits the buffer. -/
theorem writeInteger_eq {x : ℤ} (h : x.natAbs < 10 ^ 63) :
    writeInteger x = minusText (decide (x < 0)) ++ decimal x.natAbs := by
  unfold writeInteger
  by_cases h0 : x = 0
  · subst h0
    rfl
  · rw [if_neg h0]
    by_cases hneg : x < 0
    · have hminus : ascii "-" = [45] := rfl
      simp [digitLoop_eq h0 h, hneg, minusText, hminus]
    · simp [digitLoop_eq h0 h, hneg, minusText]

lemma intText_decimal (n : ℕ) : IntText (decimal n) := by
  induction n using Nat.strong_induction_on with
  | _ n ih =>
    rw [decimal_eq]
    have hdigit : isDigit (UInt8.ofNat (48 + n % 10)) = true := by
      have hlt := Nat.mod_lt n (show 0 < 10 by decide)
      revert hlt
      generalize n % 10 = d
      revert d
      decide
    split_ifs with hlt
    · rw [List.nil_append, Nat.mod_eq_of_lt hlt]
      by_cases h0 : n = 0
      · subst h0
        exact .zero
      · refine .positive (by rwa [Nat.mod_eq_of_lt hlt] at hdigit) ?_ (by simp)
        rw [Ne, ← UInt8.toNat_inj, toNat_ofNat_byte (by omega)]
        simp only [UInt8.reduceToNat]
        omega
    · have hdiv := ih (n / 10) (by omega)
      generalize hds : decimal (n / 10) = ds at hdiv
      cases hdiv with
      | zero =>
        have hzero := readDecimal_decimal (n / 10)
        rw [hds] at hzero
        exact absurd (show n / 10 = 0 from hzero.symm) (by omega)
      | @positive d ds hd hne hdigits =>
        refine .positive hd hne fun b hb => ?_
        rcases List.mem_append.mp hb with hb | hb
        · exact hdigits b hb
        · exact List.mem_singleton.mp hb ▸ hdigit

def integerText (x : ℤ) : NumberText :=
  ⟨decide (x < 0), decimal x.natAbs, none, none, intText_decimal x.natAbs⟩

lemma integerText_text (x : ℤ) :
    (integerText x).text = minusText (decide (x < 0)) ++ decimal x.natAbs := by
  simp [integerText, NumberText.text, fracText, expText]

lemma value_of_nonneg (libc : Libc) {x : ℤ} (hx : 0 ≤ x) (h : x < 2 ^ 64) :
    (integerText x).value libc = .numberUnsigned x.toNat := by
  have hlt : x.natAbs < 2 ^ 64 := by omega
  have habs : x.natAbs = x.toNat := by omega
  simp [NumberText.value, integerText, NumberText.isInteger, hx, habs] at *
  omega

lemma value_of_neg (libc : Libc) {x : ℤ} (hx : x < 0) (h : -2 ^ 63 ≤ x) :
    (integerText x).value libc = .numberInteger x := by
  have hle : x.natAbs ≤ 2 ^ 63 := by omega
  have habs : -(x.natAbs : ℤ) = x := by omega
  rw [NumberText.value, if_neg (by simp [integerText, hx]), if_pos]
  · change Json.numberInteger (-(readDecimal (decimal x.natAbs) : ℤ)) = _
    rw [readDecimal_decimal, habs]
  · simp only [integerText, NumberText.isInteger, readDecimal_decimal]
    simpa [hx] using hle

end Integers

section Floats

/-- The C library writes finite numbers other than zero as numbers. -/
def Libc.WritesNumbers (libc : Libc) : Prop :=
  ∀ x : ℚ, x ≠ 0 → ∃ n : NumberText, n.text = libc.snprintf x

lemma isIntLike_append {s t : Bytes} : isIntLike (s ++ t) = (isIntLike s && isIntLike t) :=
  List.all_append

lemma isIntLike_digits {ds : Bytes} (h : ∀ b ∈ ds, isDigit b = true) : isIntLike ds = true := by
  refine List.all_eq_true.mpr fun b hb => ?_
  have hb := h b hb
  revert hb
  exact forall_byte (P := fun b => isDigit b = true →
    (b != '.'.toUInt8 && b != 'e'.toUInt8 && b != 'E'.toUInt8) = true) (by decide +kernel) b

lemma isIntLike_iff (n : NumberText) : isIntLike n.text = n.isInteger := by
  have hminus : isIntLike (minusText n.minus) = true := by cases n.minus <;> rfl
  have hint := isIntLike_digits n.int_ok.digits
  rw [NumberText.text, isIntLike_append, isIntLike_append, isIntLike_append, hminus, hint]
  cases hf : n.frac with
  | some ds =>
    have hpoint : isIntLike (46 :: ds.text) = false := rfl
    simp [NumberText.isInteger, hf, fracText, hpoint]
  | none =>
    cases he : n.exp with
    | none =>
      have hnil : isIntLike [] = true := rfl
      simp [NumberText.isInteger, hf, he, fracText, expText, hnil]
    | some x =>
      have hx : isIntLike x.text = false := by
        rcases x.e_ok with h | h <;> rw [Exponent.text, h] <;> rfl
      simp [NumberText.isInteger, hf, he, fracText, expText, hx]

theorem exists_writeFloat {libc : Libc} (hlibc : libc.WritesNumbers) (x : FiniteDouble) :
    ∃ n : NumberText, n.text = writeFloat libc x ∧ n.isInteger = false := by
  let zero : Digits := ⟨[48], by simp, by simp [isDigit]⟩
  unfold writeFloat
  dsimp only
  split_ifs with h0 hneg hint
  · exact ⟨⟨true, [48], some zero, none, .zero⟩, rfl, rfl⟩
  · exact ⟨⟨false, [48], some zero, none, .zero⟩, rfl, rfl⟩
  · obtain ⟨n, hn⟩ := hlibc x.value h0
    rw [← hn, isIntLike_iff, NumberText.isInteger, Bool.and_eq_true, Option.isNone_iff_eq_none,
      Option.isNone_iff_eq_none] at hint
    refine ⟨⟨n.minus, n.int, some zero, none, n.int_ok⟩, ?_, rfl⟩
    rw [← hn]
    simp only [NumberText.text, hint.1, hint.2, fracText, expText, Option.elim_none,
      Option.elim_some, List.append_nil, List.append_assoc]
    rfl
  · obtain ⟨n, hn⟩ := hlibc x.value h0
    exact ⟨n, hn, by rw [← isIntLike_iff, hn]; simpa using hint⟩

lemma value_of_isInteger_false (libc : Libc) {n : NumberText} (h : n.isInteger = false) :
    n.value libc = floatValue libc n.text := by
  simp [NumberText.value, h]

lemma testLibc_writesNumbers : testLibc.WritesNumbers := fun x _ => by
  simp only [testLibc]
  split_ifs
  · exact ⟨⟨false, [48], some ⟨[51], by simp, by simp [isDigit]⟩, none, .zero⟩, rfl⟩
  · exact ⟨integerText 0, rfl⟩

end Floats

end Gpd.Jsonparser
