import Gpd.Cxx.Json
import Gpd.Jsonparser.Scan

/-! The value of a number token: a conversion to an integer type where the token allows it,
and else, or where that overflows, a conversion to `double`. -/
namespace Gpd.Jsonparser
open Text Cxx

/-- What the library leaves to the C library: the value of a decimal text as a `double`, and
the text of a finite `double` other than zero in the format "%.15g". -/
structure Libc where
  strtod : Bytes → Double
  snprintf : ℚ → Bytes

/-- `strtoull(str, &endptr, 10)` and the checks behind it: no overflow, and `endptr` at the
end of the token. The text goes on behind the token. -/
def toUnsigned (token rest : Bytes) : Option ℕ :=
  let digits := (token ++ rest).takeWhile isDigit
  if readDecimal digits < 2 ^ 64 ∧ digits.length = token.length then some (readDecimal digits)
  else none

def signPrefix : Bytes → Bytes
  | 43 :: _ => [43]
  | 45 :: _ => [45]
  | _ => []

/-- `strtoll(str, &endptr, 10)` with the same checks. -/
def toInteger (token rest : Bytes) : Option ℤ :=
  let sign := signPrefix (token ++ rest)
  let digits := ((token ++ rest).drop sign.length).takeWhile isDigit
  let x : ℤ := if sign = [45] then -(readDecimal digits : ℤ) else readDecimal digits
  if -2 ^ 63 ≤ x ∧ x < 2 ^ 63 ∧ sign.length + digits.length = token.length then some x
  else none

def fracPrefix : Bytes → Bytes
  | 46 :: s => 46 :: s.takeWhile isDigit
  | _ => []

def expPrefix : Bytes → Bytes
  | e :: s =>
    let sign := signPrefix s
    let digits := (s.drop sign.length).takeWhile isDigit
    if isExp e ∧ digits ≠ [] then e :: (sign ++ digits) else []
  | [] => []

/-- What `strtod` reads of a text that begins like a decimal number. -/
def strtodPrefix (s : Bytes) : Bytes :=
  let sign := signPrefix s
  let int := (s.drop sign.length).takeWhile isDigit
  let frac := fracPrefix ((s.drop sign.length).dropWhile isDigit)
  let exp := expPrefix (((s.drop sign.length).dropWhile isDigit).drop frac.length)
  sign ++ (int ++ (frac ++ exp))

section Number

variable (libc : Libc)

/-- The conversion of `strtonum` to `double`. -/
def strtonum (text : Bytes) : Double :=
  match libc.strtod text with
  | .finite x =>
    -- some implementations forget to negate the zero
    if x.value = 0 ∧ text.head? = some '-'.toUInt8 then .finite .negativeZero else .finite x
  | x => x

/-- A `double` that is not finite becomes null. -/
def floatValue (text : Bytes) : Json := .ofDouble (strtonum libc text)

/-- The conversion to `double`, which must end with the token. -/
def toFloat (token rest : Bytes) : Option Json :=
  let text := strtodPrefix (token ++ rest)
  if text.length = token.length then some (floatValue libc text) else none

/-- `get_number`; without a result the value stays discarded. -/
def Lexer.get_number (lx : Lexer) : Option Json :=
  match lx.last_token with
  | .value_unsigned =>
    match toUnsigned lx.token lx.rest with
    | some n => some (.numberUnsigned n)
    | none => toFloat libc lx.token lx.rest
  | .value_integer =>
    match toInteger lx.token lx.rest with
    | some n => some (.numberInteger n)
    | none => toFloat libc lx.token lx.rest
  | _ => toFloat libc lx.token lx.rest

/-- Value of a number by its parts. -/
def NumberText.value (n : NumberText) : Json :=
  if n.isInteger ∧ n.minus = false ∧ readDecimal n.int < 2 ^ 64 then
    .numberUnsigned (readDecimal n.int)
  else if n.isInteger ∧ n.minus = true ∧ readDecimal n.int ≤ 2 ^ 63 then
    .numberInteger (-(readDecimal n.int : ℤ))
  else floatValue libc n.text

end Number

lemma IntText.digits {int : Bytes} (h : IntText int) : ∀ b ∈ int, isDigit b = true := by
  cases h with
  | zero => simp [isDigit]
  | positive hd _ hds => simpa using ⟨hd, hds⟩

lemma IntText.exists_cons {int : Bytes} (h : IntText int) :
    ∃ d ds, int = d :: ds ∧ isDigit d = true := by
  cases h with
  | zero => exact ⟨48, [], rfl, rfl⟩
  | positive hd _ _ => exact ⟨_, _, rfl, hd⟩

lemma takeWhile_digits {ds rest : Bytes} (h : ∀ b ∈ ds, isDigit b = true)
    (hrest : ∀ b ∈ rest.head?, isDigit b = false) :
    (ds ++ rest).takeWhile isDigit = ds ∧ (ds ++ rest).dropWhile isDigit = rest := by
  rw [List.takeWhile_append_of_pos h, List.dropWhile_append_of_pos h]
  cases rest with
  | nil => simp
  | cons b rest => simp [hrest b (by simp)]

lemma signPrefix_of_isDigit {b : UInt8} {s : Bytes} (h : isDigit b = true) :
    signPrefix (b :: s) = [] := by
  unfold signPrefix
  split <;> simp_all [isDigit]

lemma signPrefix_minus (minus : Bool) {int : Bytes} (h : IntText int) (s : Bytes) :
    signPrefix (minusText minus ++ (int ++ s)) = minusText minus := by
  cases minus with
  | true => rfl
  | false =>
    obtain ⟨d, ds, rfl, hd⟩ := h.exists_cons
    exact signPrefix_of_isDigit hd

lemma expPrefix_text (x : Exponent) {rest : Bytes} (hrest : ∀ b ∈ rest.head?, isDigit b = false) :
    expPrefix (x.text ++ rest) = x.text := by
  have hsign : signPrefix (x.sign ++ (x.digits.text ++ rest)) = x.sign := by
    rcases x.sign_ok with hs | hs | hs <;> rw [hs]
    · obtain ⟨d, ds, hd⟩ := List.exists_cons_of_ne_nil x.digits.nonempty
      rw [hd]
      exact signPrefix_of_isDigit (x.digits.digits d (by simp [hd]))
    · rfl
    · rfl
  have hdigits := (takeWhile_digits x.digits.digits hrest).1
  rw [Exponent.text, List.cons_append, List.append_assoc, expPrefix]
  simp [hsign, hdigits, isExp_iff.mpr x.e_ok, x.digits.nonempty]

/-- Nothing in the rest goes on the number. -/
structure Ends (n : NumberText) (rest : Bytes) : Prop where
  digit : ∀ b ∈ rest.head?, isDigit b = false
  exp : n.exp = none → expPrefix rest = []
  frac : n.isInteger = true → fracPrefix rest = []

lemma fracPrefix_of_ne {b : UInt8} {s : Bytes} (h : b ≠ 46) : fracPrefix (b :: s) = [] := by
  unfold fracPrefix
  split
  · rename_i heq
    exact absurd (List.cons.inj heq).1 h
  · rfl

lemma ends_of_numberChar {n : NumberText} {rest : Bytes}
    (h : ∀ b ∈ rest.head?, numberChar b = false) : Ends n rest := by
  cases rest with
  | nil => exact ⟨by simp, fun _ => rfl, fun _ => rfl⟩
  | cons b rest =>
    have hb := h b (by simp)
    simp only [numberChar, Bool.or_eq_false_iff, beq_eq_false_iff_ne] at hb
    obtain ⟨⟨hdigit, hpoint⟩, hexp⟩ := hb
    exact ⟨by simpa using hdigit, fun _ => by simp [expPrefix, hexp],
      fun _ => fracPrefix_of_ne hpoint⟩

lemma Ends.head_exp {n : NumberText} {rest : Bytes} (h : Ends n rest) :
    ∀ b ∈ (expText n.exp ++ rest).head?, isDigit b = false := by
  intro b hb
  cases he : n.exp with
  | none => exact h.digit b (by simpa [he, expText] using hb)
  | some x =>
    rw [he] at hb
    obtain rfl := Option.some.inj hb
    exact not_isDigit_of_isExp (isExp_iff.mpr x.e_ok)

lemma Ends.head_frac {n : NumberText} {rest : Bytes} (h : Ends n rest) :
    ∀ b ∈ (fracText n.frac ++ (expText n.exp ++ rest)).head?, isDigit b = false := by
  intro b hb
  cases hf : n.frac with
  | none => exact h.head_exp b (by simpa [hf, fracText] using hb)
  | some ds =>
    rw [hf] at hb
    obtain rfl := Option.some.inj hb
    rfl

lemma Ends.fracPrefix {n : NumberText} {rest : Bytes} (h : Ends n rest) :
    fracPrefix (fracText n.frac ++ (expText n.exp ++ rest)) = fracText n.frac := by
  cases hf : n.frac with
  | some ds =>
    have hdigits := (takeWhile_digits ds.digits h.head_exp).1
    simp [fracText, Jsonparser.fracPrefix, hdigits]
  | none =>
    cases he : n.exp with
    | none => exact h.frac (by simp [NumberText.isInteger, hf, he])
    | some x =>
      have he46 : x.e ≠ 46 := by rcases x.e_ok with hx | hx <;> simp [hx]
      exact fracPrefix_of_ne he46

lemma Ends.expPrefix {n : NumberText} {rest : Bytes} (h : Ends n rest) :
    expPrefix (expText n.exp ++ rest) = expText n.exp := by
  cases he : n.exp with
  | none => exact h.exp he
  | some x => exact expPrefix_text x h.digit

lemma strtodPrefix_text {n : NumberText} {rest : Bytes} (h : Ends n rest) :
    strtodPrefix (n.text ++ rest) = n.text := by
  have hdigits := takeWhile_digits n.int_ok.digits h.head_frac
  have hsign := signPrefix_minus n.minus n.int_ok
  simp only [strtodPrefix, NumberText.text, List.append_assoc, hsign, List.drop_left, hdigits,
    h.fracPrefix, h.expPrefix]

lemma takeWhile_integer {n : NumberText} {rest : Bytes} (h : Ends n rest)
    (hn : n.isInteger = true) :
    n.text = minusText n.minus ++ n.int ∧ (n.int ++ rest).takeWhile isDigit = n.int := by
  simp only [NumberText.isInteger, Bool.and_eq_true, Option.isNone_iff_eq_none] at hn
  exact ⟨by simp [NumberText.text, hn, fracText, expText],
    (takeWhile_digits n.int_ok.digits h.digit).1⟩

lemma toUnsigned_text {n : NumberText} {rest : Bytes} (h : Ends n rest)
    (hn : n.isInteger = true) (hminus : n.minus = false) :
    toUnsigned n.text rest =
      if readDecimal n.int < 2 ^ 64 then some (readDecimal n.int) else none := by
  obtain ⟨htext, hdigits⟩ := takeWhile_integer h hn
  rw [hminus] at htext
  have htext : n.text = n.int := htext
  simp [toUnsigned, htext, hdigits]

lemma toInteger_text {n : NumberText} {rest : Bytes} (h : Ends n rest)
    (hn : n.isInteger = true) (hminus : n.minus = true) :
    toInteger n.text rest =
      if readDecimal n.int ≤ 2 ^ 63 then some (-(readDecimal n.int : ℤ)) else none := by
  obtain ⟨htext, hdigits⟩ := takeWhile_integer h hn
  rw [hminus] at htext
  have htext : n.text = 45 :: n.int := htext
  have hsign : signPrefix (45 :: (n.int ++ rest)) = [45] := rfl
  have hdrop : (45 :: (n.int ++ rest)).drop [(45 : UInt8)].length = n.int ++ rest := rfl
  simp only [toInteger, htext, List.cons_append, hsign, hdrop, hdigits, if_true]
  simp only [List.length_cons, List.length_nil]
  split_ifs <;> first | rfl | omega

lemma toFloat_text (libc : Libc) {n : NumberText} {rest : Bytes} (h : Ends n rest) :
    toFloat libc n.text rest = some (floatValue libc n.text) := by
  simp [toFloat, strtodPrefix_text h]

theorem get_number_text (libc : Libc) {n : NumberText} {rest : Bytes} (h : Ends n rest) :
    (Lexer.mk n.tokenType n.text rest).get_number libc = some (n.value libc) := by
  have hfloat := toFloat_text libc h
  unfold NumberText.tokenType NumberText.value
  cases hn : n.isInteger with
  | false => simp [Lexer.get_number, hfloat]
  | true =>
    cases hminus : n.minus with
    | false =>
      by_cases hlt : readDecimal n.int < 2 ^ 64
      · simp only [Lexer.get_number, toUnsigned_text h hn hminus, hlt]
        simp
      · simp only [Lexer.get_number, toUnsigned_text h hn hminus, hlt, hfloat]
        simp
    | true =>
      by_cases hle : readDecimal n.int ≤ 2 ^ 63
      · simp only [Lexer.get_number, toInteger_text h hn hminus, hle]
        simp
      · simp only [Lexer.get_number, toInteger_text h hn hminus, hle, hfloat]
        simp

section Maximal

variable {n : NumberText} {rest : Bytes}

lemma exists_byClass_digit {q : Label} {t : TokenType} {b : UInt8} (ha : action q = some (.emit t))
    (ht : t.isNumber = true) (hb : isDigit b = true) :
    ∃ q' t', byClass q b = some q' ∧ action q' = some (.emit t') := by
  cases q <;> simp only [action, reduceCtorEq, Option.some_inj, Action.emit.injEq] at ha <;>
    subst ha
  case l13 => exact ⟨.l48, .parse_error, by simp [byClass, intByClass, hb], rfl⟩
  case l15 => exact ⟨.l15, .value_unsigned, by simp [byClass, intByClass, hb], rfl⟩
  case l43 => exact ⟨.l48, .parse_error, by simp [byClass, intByClass, hb], rfl⟩
  case l45 => exact ⟨.l45, .value_integer, by simp [byClass, intByClass, hb], rfl⟩
  case l56 => exact ⟨.l56, .value_float, by simp [byClass, hb], rfl⟩
  case l60 => exact ⟨.l60, .value_float, by simp [byClass, one, hb], rfl⟩
  all_goals cases ht

lemma exists_lexeme_digit {b : UInt8} (hb : isDigit b = true) : ∃ t, Lexeme t (n.text ++ [b]) := by
  obtain ⟨q, hq, ha⟩ := reads_start.mpr (Lexeme.number n)
  have htype : n.tokenType.isNumber = true := by
    unfold NumberText.tokenType
    split_ifs <;> rfl
  obtain ⟨q', t, hq', ht⟩ := exists_byClass_digit ha htype hb
  refine ⟨t, reads_start.mp ⟨q', ?_, ht⟩⟩
  rw [Scanner.run_append_of_run hq, Scanner.run_cons]
  exact Option.bind_eq_some_iff.mpr ⟨q', (next_eq_byClass q b).trans hq', rfl⟩

lemma lexeme_exponent (he : n.exp = none) (x : Exponent) :
    Lexeme .value_float (n.text ++ x.text) := by
  have h := Lexeme.number { n with exp := some x }
  have htype : ({ n with exp := some x } : NumberText).tokenType = .value_float := by
    simp [NumberText.tokenType, NumberText.isInteger]
  rw [htype] at h
  simpa [NumberText.text, he, expText] using h

lemma exists_exponent {s : Bytes} (h : expPrefix s ≠ []) :
    ∃ (x : Exponent) (s' : Bytes), s = x.text ++ s' := by
  cases s with
  | nil => exact absurd rfl h
  | cons e s =>
    rw [expPrefix] at h
    split_ifs at h with hcond
    · obtain ⟨he, hne⟩ := hcond
      obtain ⟨hsign, s', hs⟩ : (signPrefix s = [] ∨ signPrefix s = [43] ∨ signPrefix s = [45]) ∧
          ∃ s', s = signPrefix s ++ s' := by
        unfold signPrefix
        split
        · exact ⟨by simp, _, rfl⟩
        · exact ⟨by simp, _, rfl⟩
        · exact ⟨by simp, s, rfl⟩
      have hdrop : s.drop (signPrefix s).length = s' := by
        have hlen := congrArg (List.drop (signPrefix s).length) hs
        rwa [List.drop_left] at hlen
      rw [hdrop] at hne
      refine ⟨⟨e, signPrefix s, ⟨s'.takeWhile isDigit, hne, fun b hb => List.mem_takeWhile_imp hb⟩,
        isExp_iff.mp he, hsign⟩, s'.dropWhile isDigit, ?_⟩
      rw [Exponent.text, List.cons_append, List.append_assoc, List.takeWhile_append_dropWhile, ← hs]
    · exact absurd rfl h

lemma ends_of_maximal (h : Maximal n.text rest) : Ends n rest ∨ ∃ s, rest = 46 :: s := by
  by_cases hpoint : ∃ s, rest = 46 :: s
  · exact .inr hpoint
  · refine .inl ⟨fun b hb => ?_, fun he => ?_, fun _ => ?_⟩
    · cases rest with
      | nil => simp at hb
      | cons c s =>
        obtain rfl := Option.some.inj hb
        by_contra hdigit
        obtain ⟨t, ht⟩ := exists_lexeme_digit (n := n) (Bool.eq_true_of_not_eq_false hdigit)
        have hle := h (n.text ++ [c]) s t (by simp) ht
        simp at hle
    · by_contra hexp
      obtain ⟨x, s, hs⟩ := exists_exponent hexp
      have hle := h (n.text ++ x.text) s _ (by simp [hs]) (lexeme_exponent he x)
      simp [Exponent.text] at hle
    · cases rest with
      | nil => rfl
      | cons c s =>
        refine fracPrefix_of_ne ?_
        rintro rfl
        exact hpoint ⟨s, rfl⟩

/-- A number token gets its value, or is discarded in front of a point that begins no token. -/
theorem get_number_maximal (libc : Libc) (h : Maximal n.text rest) :
    (Lexer.mk n.tokenType n.text rest).get_number libc = some (n.value libc) ∨
      ∃ s, rest = 46 :: s := by
  rcases ends_of_maximal h with hends | hpoint
  · exact .inl (get_number_text libc hends)
  · exact .inr hpoint

end Maximal

/-- The numbers next to 3/10 that a `double` can have: the nearest one, and the one that
0.1 + 0.2 gives. -/
def threeTenths : ℚ := ⟨5404319552844595, 2 ^ 54, by decide, by norm_num⟩

def threeTenthsUp : ℚ := ⟨1351079888211149, 2 ^ 52, by decide, by norm_num⟩

/-- A C library that knows these two besides integers, for trying the library. -/
def testLibc : Libc where
  strtod := fun s => .finite (.number
    (if s = ascii "0.30000000000000004" then threeTenthsUp
    else if s = ascii "0.3" then threeTenths
    else readDecimal (s.takeWhile isDigit)))
  snprintf := fun x => if x = threeTenths ∨ x = threeTenthsUp then ascii "0.3" else ascii "0"

end Gpd.Jsonparser
