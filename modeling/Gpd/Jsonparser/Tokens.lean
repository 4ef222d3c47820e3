import Gpd.Jsonparser.Strings

/-! The automaton accepts exactly the texts of the rules, and the scanner finds the longest of
them behind the white space. -/
namespace Gpd.Jsonparser
open Text Cxx

/-- Type of an integer with the sign. -/
def integerType (minus : Bool) : TokenType := if minus then .value_integer else .value_unsigned

lemma NumberText.tokenType_eq (n : NumberText) :
    n.tokenType = fractionalType (integerType n.minus) n.frac n.exp := rfl

lemma lexeme_of_unsignedNumber {minus : Bool} {s : Bytes} {t : TokenType}
    (h : UnsignedNumber (integerType minus) s t) : Lexeme t (minusText minus ++ s) := by
  rcases h with ⟨ds, rfl, rfl⟩ | ⟨int, frac, exp, hint, rfl, rfl⟩
  · exact .invalidInt minus ds
  · exact .number ⟨minus, int, frac, exp, hint⟩

lemma reads_nil_iff {q : Label} {t₀ t : TokenType} (ha : action q = some (.emit t₀)) :
    Reads q [] t ↔ t = t₀ := by
  rw [reads_nil, ha, Option.some_inj, Action.emit.injEq, eq_comm]

lemma reads_terminal {q : Label} {s : Bytes} {t : TokenType} (hq : ∀ b, byClass q b = none) :
    Reads q s t ↔ s = [] ∧ action q = some (.emit t) := by
  cases s with
  | nil => simp [reads_nil]
  | cons b s => simp [reads_cons, hq]

lemma not_reads_l6 (s : Bytes) (t : TokenType) : ¬Reads .l6 s t := by
  induction s with
  | nil => simp [reads_nil, action]
  | cons b s ih =>
    rw [reads_cons_one (p := isWs) (r := .l6) rfl]
    exact fun h => ih h.2

lemma reads_char {q target : Label} {c : UInt8} {s : Bytes} {t : TokenType}
    (hq : ∀ b, byClass q b = one (b = c) target) (ha : action q = none) :
    Reads q s t ↔ ∃ s', s = c :: s' ∧ Reads target s' t := by
  constructor
  · intro h
    obtain ⟨b, s', rfl, hb, hs'⟩ := exists_cons_of_reads hq ha h
    exact ⟨s', by rw [of_decide_eq_true hb], hs'⟩
  · rintro ⟨s', rfl, h⟩
    exact (reads_cons_one (p := fun b => decide (b = c)) (hq c)).mpr ⟨decide_eq_true rfl, h⟩

lemma reads_letter {q target : Label} {c : UInt8} {s : Bytes} {t : TokenType}
    (hq : ∀ b, byClass q b = one (b = c) target) (ha : action q = some (.emit .parse_error)) :
    Reads q s t ↔ s = [] ∧ t = .parse_error ∨ ∃ s', s = c :: s' ∧ Reads target s' t := by
  cases s with
  | nil => simp [reads_nil_iff ha]
  | cons b s =>
    rw [reads_cons_one (p := fun b => decide (b = c)) (hq b)]
    simp

lemma reads_l23 {s : Bytes} {t : TokenType} :
    Reads .l23 s t ↔
      s = [] ∧ t = .parse_error ∨ 102 :: s = ascii "false" ∧ t = .literal_false := by
  rw [reads_letter (c := 97) (fun b => rfl) rfl]
  simp only [reads_char (q := .l52) (c := 108) (fun b => rfl) rfl,
    reads_char (q := .l62) (c := 115) (fun b => rfl) rfl,
    reads_char (q := .l66) (c := 101) (fun b => rfl) rfl,
    reads_terminal (q := .l72) fun b => rfl]
  have hword : ascii "false" = [102, 97, 108, 115, 101] := rfl
  simp [hword, action, eq_comm]

lemma reads_l24 {s : Bytes} {t : TokenType} :
    Reads .l24 s t ↔
      s = [] ∧ t = .parse_error ∨ 110 :: s = ascii "null" ∧ t = .literal_null := by
  rw [reads_letter (c := 117) (fun b => rfl) rfl]
  simp only [reads_char (q := .l53) (c := 108) (fun b => rfl) rfl,
    reads_char (q := .l63) (c := 108) (fun b => rfl) rfl,
    reads_terminal (q := .l67) fun b => rfl]
  have hword : ascii "null" = [110, 117, 108, 108] := rfl
  simp [hword, action, eq_comm]

lemma reads_l25 {s : Bytes} {t : TokenType} :
    Reads .l25 s t ↔
      s = [] ∧ t = .parse_error ∨ 116 :: s = ascii "true" ∧ t = .literal_true := by
  rw [reads_letter (c := 114) (fun b => rfl) rfl]
  simp only [reads_char (q := .l54) (c := 117) (fun b => rfl) rfl,
    reads_char (q := .l64) (c := 101) (fun b => rfl) rfl,
    reads_terminal (q := .l69) fun b => rfl]
  have hword : ascii "true" = [116, 114, 117, 101] := rfl
  simp [hword, action, eq_comm]

lemma reads_l9 {s : Bytes} {t : TokenType} :
    Reads .l9 s t ↔ s = [] ∧ t = .parse_error ∨
      ∃ cs, s = stringText cs ++ [34] ∧ t = .value_string := by
  cases s with
  | nil => simp [reads_nil_iff (q := .l9) rfl]
  | cons b s =>
    have h9 : Reads .l9 (b :: s) t ↔ Reads .l30 (b :: s) t := by
      rw [reads_cons, reads_cons]
      rfl
    rw [h9, reads_l30]
    simp

lemma isDigit_head_of_unsignedNumber {t₀ t : TokenType} {b : UInt8} {s : Bytes}
    (h : UnsignedNumber t₀ (b :: s) t) : isDigit b = true := by
  rcases h with ⟨ds, hs, -⟩ | ⟨int, frac, exp, hint, hs, -⟩
  · obtain ⟨rfl, -⟩ := List.cons.inj hs
    rfl
  · cases hint with
    | zero =>
      obtain ⟨rfl, -⟩ := List.cons.inj hs
      rfl
    | positive hd _ _ =>
      obtain ⟨rfl, -⟩ := List.cons.inj hs
      exact hd

lemma reads_l12 {s : Bytes} {t : TokenType} :
    Reads .l12 s t ↔ s = [] ∧ t = .parse_error ∨ UnsignedNumber .value_integer s t := by
  cases s with
  | nil =>
    have hempty : ¬UnsignedNumber .value_integer [] t := by
      rintro (⟨ds, hs, -⟩ | ⟨int, frac, exp, hint, hs, -⟩)
      · simp at hs
      · cases hint <;> simp at hs
    simp [reads_nil_iff (q := .l12) rfl, hempty]
  | cons b s =>
    by_cases hb : isDigit b = true
    · have hq : byClass .l12 b = some (if b = 48 then .l43 else .l45) := by
        rw [byClass]
        split_ifs <;> simp [one, hb]
      rw [reads_step hq, reads_unsigned (fun c => rfl) rfl (fun c => rfl) rfl hb]
      simp
    · have hq : byClass .l12 b = none := by
        have h48 : b ≠ 48 := by
          rintro rfl
          exact hb rfl
        simp [byClass, one, hb, h48]
      have hno : ¬UnsignedNumber .value_integer (b :: s) t :=
        fun h => hb (isDigit_head_of_unsignedNumber h)
      simp [reads_cons, hq, hno]

lemma start_space {b : UInt8} (h : isWs b = true) : startByClass b = .l6 := by
  simp [startByClass, h]

lemma start_structural {b : UInt8} {t : TokenType} (h : structural b = some t) :
    ∃ q, byClass .start b = some q ∧ (∀ c, byClass q c = none) ∧ action q = some (.emit t) := by
  unfold structural at h
  split_ifs at h with h1 h2 h3 h4 h5 h6 h7 <;> obtain rfl := Option.some.inj h <;> subst b
  all_goals exact ⟨_, rfl, fun c => rfl, rfl⟩

lemma start_digit {b : UInt8} (h : isDigit b = true) :
    byClass .start b = some (if b = 48 then .l13 else .l15) := by
  revert h
  exact forall_byte (P := fun b => isDigit b = true →
    byClass .start b = some (if b = 48 then .l13 else .l15)) (by decide +kernel) b

/-- The characters that begin a longer token without being a digit. -/
def beginners : List UInt8 := [34, 45, 102, 110, 116]

lemma start_other {b : UInt8} (hws : isWs b = false) (hst : structural b = none)
    (hdigit : isDigit b = false) (hb : b ∉ beginners) : byClass .start b = some .l4 := by
  have hclass : isWs b = false ∧ structural b = none ∧ isDigit b = false ∧ b ∉ beginners :=
    ⟨hws, hst, hdigit, hb⟩
  revert hclass
  exact forall_byte (P := fun b => isWs b = false ∧ structural b = none ∧ isDigit b = false ∧
    b ∉ beginners → byClass .start b = some .l4) (by decide +kernel) b

lemma reads_beginner {b : UInt8} {s : Bytes} {t : TokenType} (hb : b ∈ beginners) :
    Reads .start (b :: s) t ↔ s = [] ∧ t = .parse_error ∨
      (∃ cs, b :: s = quoted (stringText cs) ∧ t = .value_string) ∨
      (b = 45 ∧ UnsignedNumber .value_integer s t) ∨
      b :: s = ascii "false" ∧ t = .literal_false ∨
      b :: s = ascii "null" ∧ t = .literal_null ∨
      b :: s = ascii "true" ∧ t = .literal_true := by
  have hfalse : ascii "false" = [102, 97, 108, 115, 101] := rfl
  have hnull : ascii "null" = [110, 117, 108, 108] := rfl
  have htrue : ascii "true" = [116, 114, 117, 101] := rfl
  simp only [beginners, List.mem_cons, List.not_mem_nil, or_false] at hb
  rcases hb with rfl | rfl | rfl | rfl | rfl
  · rw [reads_step (show byClass .start 34 = some .l9 from rfl), reads_l9]
    simp [quoted, hfalse, hnull, htrue]
  · rw [reads_step (show byClass .start 45 = some .l12 from rfl), reads_l12]
    simp [quoted, hfalse, hnull, htrue]
  · rw [reads_step (show byClass .start 102 = some .l23 from rfl), reads_l23]
    simp [quoted, hnull, htrue]
  · rw [reads_step (show byClass .start 110 = some .l24 from rfl), reads_l24]
    simp [quoted, hfalse, htrue]
  · rw [reads_step (show byClass .start 116 = some .l25 from rfl), reads_l25]
    simp [quoted, hfalse, hnull]

lemma lexeme_of_reads {u : Bytes} {t : TokenType} (h : Reads .start u t) : Lexeme t u := by
  cases u with
  | nil => exact absurd h (reads_nil_of_none rfl t)
  | cons b s =>
    by_cases hws : isWs b = true
    · rw [reads_step (r := startByClass b) rfl, start_space hws] at h
      exact absurd h (not_reads_l6 s t)
    by_cases hdigit : isDigit b = true
    · rw [reads_step (start_digit hdigit),
        reads_unsigned (fun c => rfl) rfl (fun c => rfl) rfl hdigit] at h
      exact lexeme_of_unsignedNumber (show UnsignedNumber (integerType false) _ _ from h)
    cases hst : structural b with
    | some t₀ =>
      obtain ⟨q, hq, hnone, ha⟩ := start_structural hst
      obtain ⟨rfl, ht⟩ := (reads_terminal hnone).mp ((reads_step hq).mp h)
      obtain rfl := Action.emit.inj (Option.some.inj (ha.symm.trans ht))
      exact .structural hst
    | none =>
      simp only [Bool.not_eq_true] at hws hdigit
      by_cases hb : b ∈ beginners
      · rcases (reads_beginner hb).mp h with ⟨rfl, rfl⟩ | ⟨cs, hs, rfl⟩ | ⟨rfl, hnumber⟩ |
          ⟨hs, rfl⟩ | ⟨hs, rfl⟩ | ⟨hs, rfl⟩
        · exact .other hst hws hdigit
        · exact hs ▸ .string cs
        · exact lexeme_of_unsignedNumber (show UnsignedNumber (integerType true) _ _ from hnumber)
        · exact hs ▸ .literal_false
        · exact hs ▸ .literal_null
        · exact hs ▸ .literal_true
      · rw [reads_step (start_other hws hst hdigit hb), reads_terminal fun c => rfl] at h
        obtain ⟨rfl, ht⟩ := h
        obtain rfl := Action.emit.inj (Option.some.inj ht)
        exact .other hst hws hdigit

lemma reads_of_unsignedNumber {minus : Bool} {s : Bytes} {t : TokenType}
    (h : UnsignedNumber (integerType minus) s t) : Reads .start (minusText minus ++ s) t := by
  cases minus with
  | true => exact (reads_beginner (by simp [beginners])).mpr (.inr (.inr (.inl ⟨rfl, h⟩)))
  | false =>
    cases s with
    | nil =>
      rcases h with ⟨ds, hs, -⟩ | ⟨int, frac, exp, hint, hs, -⟩
      · simp at hs
      · cases hint <;> simp at hs
    | cons b s =>
      have hb := isDigit_head_of_unsignedNumber h
      rw [minusText, if_neg (by simp), List.nil_append, reads_step (start_digit hb),
        reads_unsigned (fun c => rfl) rfl (fun c => rfl) rfl hb]
      exact h

lemma reads_of_lexeme {u : Bytes} {t : TokenType} (h : Lexeme t u) : Reads .start u t := by
  cases h with
  | structural hst =>
    obtain ⟨q, hq, hnone, ha⟩ := start_structural hst
    exact (reads_step hq).mpr ((reads_terminal hnone).mpr ⟨rfl, ha⟩)
  | literal_null =>
    refine (reads_beginner (b := 110) (by simp [beginners])).mpr ?_
    exact .inr (.inr (.inr (.inr (.inl ⟨rfl, rfl⟩))))
  | literal_true =>
    refine (reads_beginner (b := 116) (by simp [beginners])).mpr ?_
    exact .inr (.inr (.inr (.inr (.inr ⟨rfl, rfl⟩))))
  | literal_false =>
    exact
      (reads_beginner (b := 102) (by simp [beginners])).mpr (.inr (.inr (.inr (.inl ⟨rfl, rfl⟩))))
  | string cs =>
    exact (reads_beginner (by simp [beginners])).mpr (.inr (.inl ⟨cs, rfl, rfl⟩))
  | number n =>
    exact reads_of_unsignedNumber (.inr ⟨n.int, n.frac, n.exp, n.int_ok, rfl, n.tokenType_eq⟩)
  | invalidInt minus ds => exact reads_of_unsignedNumber (.inl ⟨ds, rfl, rfl⟩)
  | @other b hst hws hdigit =>
    by_cases hb : b ∈ beginners
    · exact (reads_beginner hb).mpr (.inl ⟨rfl, rfl⟩)
    · rw [reads_step (start_other hws hst hdigit hb), reads_terminal fun c => rfl]
      exact ⟨rfl, rfl⟩

/-- The automaton accepts exactly the texts of the rules. -/
theorem reads_start {u : Bytes} {t : TokenType} : Reads .start u t ↔ Lexeme t u :=
  ⟨lexeme_of_reads, reads_of_lexeme⟩

end Gpd.Jsonparser
