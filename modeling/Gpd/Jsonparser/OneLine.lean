import Gpd.Jsonparser.Numtostr

/-! Without indentation the serializer writes a single line. -/
namespace Gpd.Jsonparser
open Text Cxx

/-- One line: no byte below the space, and so no line break. -/
def OneLine (s : Bytes) : Prop := ∀ b ∈ s, 0x20 ≤ b

lemma oneLine_append {s t : Bytes} : OneLine (s ++ t) ↔ OneLine s ∧ OneLine t := by
  simp [OneLine, or_imp, forall_and]

lemma oneLine_cons {b : UInt8} {s : Bytes} : OneLine (b :: s) ↔ 0x20 ≤ b ∧ OneLine s := by
  simp [OneLine]

lemma oneLine_nil : OneLine [] := by simp [OneLine]

lemma oneLine_of_all {s : Bytes} (h : s.all (0x20 ≤ ·) = true) : OneLine s :=
  fun b hb => of_decide_eq_true (List.all_eq_true.mp h b hb)

lemma oneLine_spaces (indent : UInt32) : OneLine (spaces indent) := by
  intro b hb
  rw [List.eq_of_mem_replicate hb]
  decide

lemma oneLine_of_isHex {b : UInt8} (h : isHex b = true) : 0x20 ≤ b := by
  simp only [isHex, isDigit, Bool.or_eq_true, Bool.and_eq_true, decide_eq_true_eq,
    UInt8.le_iff_toNat_le, UInt8.reduceToNat] at h ⊢
  omega

lemma oneLine_of_isSingleEscaped {b : UInt8} (h : isSingleEscaped b = true) : 0x20 ≤ b := by
  simp only [isSingleEscaped, Bool.or_eq_true, beq_iff_eq] at h
  rcases h with ((((((rfl | rfl) | rfl) | rfl) | rfl) | rfl) | rfl) | rfl <;> decide

lemma oneLine_escaped (c : UInt8) : OneLine (escaped c) := by
  obtain ⟨hshort, hunicode, hplain, -⟩ := escapeRules c
  unfold escaped
  split
  · rename_i m hm
    have hm := oneLine_of_isSingleEscaped (hshort m hm).1
    simpa [oneLine_cons, oneLine_nil] using hm
  · rename_i hnone
    split_ifs with hc
    · obtain ⟨hhigh, hlow, -⟩ := hunicode hc
      simpa [oneLine_cons, oneLine_nil] using
        ⟨oneLine_of_isHex hhigh, oneLine_of_isHex hlow⟩
    · have hc := (hplain ⟨hnone, by simpa using hc⟩).1
      rw [oneLine_cons, UInt8.le_iff_toNat_le]
      exact ⟨hc, oneLine_nil⟩

lemma oneLine_escape_string (s : Bytes) : OneLine (escape_string s) := by
  intro b hb
  rw [escape_string_eq] at hb
  obtain ⟨c, -, hc⟩ := List.mem_flatMap.mp hb
  exact oneLine_escaped c b hc

lemma oneLine_digits {ds : Bytes} (h : ∀ b ∈ ds, isDigit b = true) : OneLine ds := by
  intro b hb
  have hhex : isHex b = true := by simp [isHex, h b hb]
  exact oneLine_of_isHex hhex

lemma oneLine_number (n : NumberText) : OneLine n.text := by
  have hminus : OneLine (minusText n.minus) := by
    cases n.minus <;> simp [minusText, OneLine]
  have hfrac : OneLine (fracText n.frac) := by
    cases n.frac with
    | none => exact oneLine_nil
    | some ds => exact oneLine_cons.mpr ⟨by decide, oneLine_digits ds.digits⟩
  have hexp : OneLine (expText n.exp) := by
    cases n.exp with
    | none => exact oneLine_nil
    | some x =>
      refine oneLine_cons.mpr ⟨?_, oneLine_append.mpr ⟨?_, oneLine_digits x.digits.digits⟩⟩
      · rcases x.e_ok with h | h <;> rw [h] <;> decide
      · rcases x.sign_ok with h | h | h <;> rw [h] <;> simp [OneLine]
  simp only [NumberText.text, oneLine_append]
  exact ⟨hminus, oneLine_digits n.int_ok.digits, hfrac, hexp⟩

lemma oneLine_separator (first : Bool) : OneLine (separator false first) := by
  cases first
  · simp [separator, newline, OneLine]
  · exact oneLine_nil

lemma oneLine_digitLoop (n : ℕ) (x : ℤ) : OneLine (digitLoop n x) := by
  induction n generalizing x with
  | zero => exact oneLine_nil
  | succ n ih =>
    rw [digitLoop]
    split_ifs with h0
    · exact oneLine_nil
    · refine oneLine_cons.mpr ⟨?_, ih _⟩
      have hmod : (x.tmod 10).natAbs = x.natAbs % 10 := Int.natAbs_tmod x 10
      rw [UInt8.le_iff_toNat_le, toNat_ofNat_byte (by omega)]
      simp only [UInt8.reduceToNat]
      omega

lemma oneLine_writeInteger (x : ℤ) : OneLine (writeInteger x) := by
  unfold writeInteger
  have hdigits := oneLine_digitLoop 63 x
  dsimp only
  split_ifs with h0 hneg
  · exact oneLine_of_all rfl
  · intro b hb
    rcases List.mem_append.mp (List.mem_reverse.mp hb) with hb | hb
    · exact hdigits b hb
    · exact oneLine_of_all (s := ascii "-") rfl b hb
  · exact fun b hb => hdigits b (List.mem_reverse.mp hb)

variable {libc : Libc} {step : UInt32}

mutual

theorem oneLine_dumpAt (hlibc : libc.WritesNumbers) (indent : UInt32) (j : Json) :
    OneLine (dumpAt libc false step indent j) := by
  cases j with
  | null => exact oneLine_of_all rfl
  | boolean b => cases b <;> exact oneLine_of_all rfl
  | string s =>
    simpa [dumpAt, oneLine_cons, oneLine_append, oneLine_nil] using oneLine_escape_string s
  | numberInteger n => exact oneLine_writeInteger n
  | numberUnsigned n => exact oneLine_writeInteger n
  | numberFloat x =>
    obtain ⟨n, hn, -⟩ := exists_writeFloat hlibc x
    simpa [dumpAt, hn] using oneLine_number n
  | array js =>
    cases js with
    | nil => exact oneLine_of_all rfl
    | cons j js =>
      have helements := oneLine_dumpElements hlibc (raise false step indent) true (j :: js)
      simpa [dumpAt, oneLine_cons, oneLine_append, oneLine_nil, newline, oneLine_spaces]
        using helements
  | object ms =>
    cases ms with
    | nil => exact oneLine_of_all rfl
    | cons m ms =>
      have hmembers := oneLine_dumpMembers hlibc (raise false step indent) true (m :: ms)
      simpa [dumpAt, oneLine_cons, oneLine_append, oneLine_nil, newline, oneLine_spaces]
        using hmembers

theorem oneLine_dumpElements (hlibc : libc.WritesNumbers) (indent : UInt32) (first : Bool)
    (js : List Json) : OneLine (dumpElements libc false step indent first js) := by
  cases js with
  | nil => exact oneLine_nil
  | cons j js =>
    have hj := oneLine_dumpAt hlibc indent j
    have hjs := oneLine_dumpElements hlibc indent false js
    simp only [dumpElements, oneLine_append]
    exact ⟨oneLine_separator first, oneLine_spaces indent, hj, hjs⟩

theorem oneLine_dumpMembers (hlibc : libc.WritesNumbers) (indent : UInt32) (first : Bool)
    (ms : List (Bytes × Json)) : OneLine (dumpMembers libc false step indent first ms) := by
  cases ms with
  | nil => exact oneLine_nil
  | cons m ms =>
    obtain ⟨k, j⟩ := m
    have hj := oneLine_dumpAt hlibc indent j
    have hms := oneLine_dumpMembers hlibc indent false ms
    simp only [dumpMembers, oneLine_append, oneLine_cons]
    exact ⟨oneLine_separator first, oneLine_spaces indent, by decide,
      oneLine_escape_string k, by decide, by decide, oneLine_nil, hj, hms⟩

end

/-- Without indentation the text is one line, of any value. -/
theorem oneLine_dump (hlibc : libc.WritesNumbers) {indent : ℤ} (h : indent < 0) (j : Json) :
    OneLine (dump libc indent j) := by
  rw [dump, if_neg (by omega)]
  exact oneLine_dumpAt hlibc 0 j

theorem oneLine_dump_line_break : OneLine (dump testLibc (-1) (.string [10, 34, 0x7f])) :=
  oneLine_dump testLibc_writesNumbers (by decide) _

end Gpd.Jsonparser
