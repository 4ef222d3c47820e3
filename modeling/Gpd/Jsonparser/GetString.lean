import Gpd.Jsonparser.Scan

/-! The value of a string token: escapes are resolved, and UTF-16 surrogates are put together
to a character. -/
namespace Gpd.Jsonparser
open Text Cxx

/-- The exceptions that the parser throws, with their texts. -/
inductive ParseError
  | invalid_argument (what : Bytes)
  | out_of_range (what : Bytes)
  deriving DecidableEq, Repr

def lowByte (n : ℕ) : UInt8 := UInt8.ofNat n

/-- `to_unicode` from the code point on. -/
def encodeCodepoint (codepoint : ℕ) : Except ParseError Bytes :=
  if codepoint < 0x80 then .ok [lowByte codepoint]
  else if codepoint ≤ 0x7ff then
    .ok [lowByte (0xC0 ||| ((codepoint >>> 6) &&& 0x1F)), lowByte (0x80 ||| (codepoint &&& 0x3F))]
  else if codepoint ≤ 0xffff then
    .ok [lowByte (0xE0 ||| ((codepoint >>> 12) &&& 0x0F)),
      lowByte (0x80 ||| ((codepoint >>> 6) &&& 0x3F)), lowByte (0x80 ||| (codepoint &&& 0x3F))]
  else if codepoint ≤ 0x10ffff then
    .ok [lowByte (0xF0 ||| ((codepoint >>> 18) &&& 0x07)),
      lowByte (0x80 ||| ((codepoint >>> 12) &&& 0x3F)),
      lowByte (0x80 ||| ((codepoint >>> 6) &&& 0x3F)), lowByte (0x80 ||| (codepoint &&& 0x3F))]
  else .error (.out_of_range (ascii "code points above 0x10FFFF are invalid"))

/-- Code points that stand for the first or the second half of a character. -/
def isHighSurrogate (codepoint : ℕ) : Bool := 0xD800 ≤ codepoint && codepoint ≤ 0xDBFF

def isLowSurrogate (codepoint : ℕ) : Bool := 0xDC00 ≤ codepoint && codepoint ≤ 0xDFFF

def to_unicode (codepoint1 codepoint2 : ℕ) : Except ParseError Bytes :=
  if isHighSurrogate codepoint1 then
    if isLowSurrogate codepoint2 then
      encodeCodepoint ((codepoint1 <<< 10) + codepoint2 - 0x35FDC00)
    else .error (.invalid_argument (ascii "missing or wrong low surrogate"))
  else encodeCodepoint codepoint1

def hexValue (b : UInt8) : ℕ :=
  if isDigit b then b.toNat - 48 else if b.toNat < 97 then b.toNat - 55 else b.toNat - 87

/-- `strtoul` in base 16, of digits. -/
def strtoul (digits : Bytes) : ℕ := digits.foldl (fun acc d => 16 * acc + hexValue d) 0

/-- The character behind a backslash. -/
def escapeValue (b : UInt8) : Bytes :=
  if b = 't'.toUInt8 then [9]
  else if b = 'b'.toUInt8 then [8]
  else if b = 'f'.toUInt8 then [12]
  else if b = 'n'.toUInt8 then [10]
  else if b = 'r'.toUInt8 then [13]
  else if b = '\\'.toUInt8 then [92]
  else if b = '/'.toUInt8 then [47]
  else if b = '"'.toUInt8 then [34]
  else []

def missingLowSurrogate : ParseError := .invalid_argument (ascii "missing low surrogate")

def missingHighSurrogate : ParseError := .invalid_argument (ascii "missing high surrogate")

/-- The loop of `get_string` over what stands between the quotation marks. The scanner lets
no text through where fewer than four digits follow `\u`. -/
def getString : Bytes → Except ParseError Bytes
  | [] => .ok []
  | 92 :: 117 :: d₁ :: d₂ :: d₃ :: d₄ :: s =>
    let codepoint := strtoul [d₁, d₂, d₃, d₄]
    if isHighSurrogate codepoint then
      match s with
      | 92 :: 117 :: e₁ :: e₂ :: e₃ :: e₄ :: s => do
        let c ← to_unicode codepoint (strtoul [e₁, e₂, e₃, e₄])
        return c ++ (← getString s)
      | _ => .error missingLowSurrogate
    else if isLowSurrogate codepoint then .error missingHighSurrogate
    else do
      let c ← to_unicode codepoint 0
      return c ++ (← getString s)
  | 92 :: b :: s => do return escapeValue b ++ (← getString s)
  | b :: s => do return b :: (← getString s)

/-- `get_string` of the lexer: the text of the token without the quotation marks. -/
def Lexer.get_string (lx : Lexer) : Except ParseError Bytes := getString lx.token.tail.dropLast

def Hex4.value (x : Hex4) : ℕ := strtoul x.text

def singleChar (b : UInt8) : Char :=
  if b = 116 then '\t'
  else if b = 98 then '\x08'
  else if b = 102 then '\x0c'
  else if b = 110 then '\n'
  else if b = 114 then '\r'
  else Char.ofNat b.toNat

/-- The characters that the inside of a string token spells: a code point of the Basic
Multilingual Plane stands for itself, the others are pairs of surrogates. -/
inductive Spells : List StringChar → List Char → Prop
  | nil : Spells [] []
  | unescaped {c : Char} {h : 0x20 ≤ c.toNat ∧ c ≠ '"' ∧ c ≠ '\\'} {cs : List StringChar}
      {v : List Char} : Spells cs v → Spells (.unescaped c h :: cs) (c :: v)
  | single {b : UInt8} {h : isSingleEscaped b = true} {cs : List StringChar} {v : List Char} :
      Spells cs v → Spells (.single b h :: cs) (singleChar b :: v)
  | basic {x : Hex4} {c : Char} {cs : List StringChar} {v : List Char} : x.value = c.toNat →
      Spells cs v → Spells (.unicode x :: cs) (c :: v)
  | pair {x y : Hex4} {c : Char} {cs : List StringChar} {v : List Char} : 0x10000 ≤ c.toNat →
      x.value = 0xD800 + (c.toNat - 0x10000) / 1024 →
      y.value = 0xDC00 + (c.toNat - 0x10000) % 1024 →
      Spells cs v → Spells (.unicode x :: .unicode y :: cs) (c :: v)

def encode (cs : List Char) : Bytes := cs.flatMap String.utf8EncodeChar

section Unicode

lemma mark_or {n mark k : ℕ} (h : 2 ^ k ∣ mark) :
    mark ||| (n &&& (2 ^ k - 1)) = n % 2 ^ k + mark := by
  obtain ⟨m, rfl⟩ := h
  rw [Nat.and_two_pow_sub_one_eq_mod, ← Nat.two_pow_add_eq_or_of_lt (Nat.mod_lt _ (by positivity)),
    Nat.add_comm]

lemma encodeCodepoint_char (c : Char) :
    encodeCodepoint c.toNat = .ok (String.utf8EncodeChar c) := by
  have hc := char_range c
  have h5 (n : ℕ) : 0xC0 ||| (n &&& 0x1F) = n % 0x20 + 0xC0 := mark_or (k := 5) (by decide)
  have h4 (n : ℕ) : 0xE0 ||| (n &&& 0x0F) = n % 0x10 + 0xE0 := mark_or (k := 4) (by decide)
  have h3 (n : ℕ) : 0xF0 ||| (n &&& 0x07) = n % 0x08 + 0xF0 := mark_or (k := 3) (by decide)
  have h6 (n : ℕ) : 0x80 ||| (n &&& 0x3F) = n % 0x40 + 0x80 := mark_or (k := 6) (by decide)
  unfold encodeCodepoint String.utf8EncodeChar lowByte
  simp only [h3, h4, h5, h6, Nat.shiftRight_eq_div_pow]
  have hval : c.val.toNat = c.toNat := rfl
  rw [hval]
  split_ifs <;> first | omega | rfl

lemma isHighSurrogate_iff {n : ℕ} : isHighSurrogate n = true ↔ 0xD800 ≤ n ∧ n ≤ 0xDBFF := by
  simp [isHighSurrogate]

lemma isLowSurrogate_iff {n : ℕ} : isLowSurrogate n = true ↔ 0xDC00 ≤ n ∧ n ≤ 0xDFFF := by
  simp [isLowSurrogate]

lemma not_surrogate (c : Char) :
    isHighSurrogate c.toNat = false ∧ isLowSurrogate c.toNat = false := by
  have hc := char_range c
  rw [← Bool.not_eq_true, ← Bool.not_eq_true, isHighSurrogate_iff, isLowSurrogate_iff]
  omega

lemma to_unicode_char (c : Char) (codepoint2 : ℕ) :
    to_unicode c.toNat codepoint2 = .ok (String.utf8EncodeChar c) := by
  rw [to_unicode, if_neg (by simp [not_surrogate c]), encodeCodepoint_char]

lemma to_unicode_pair {c : Char} {m n : ℕ} (hc : 0x10000 ≤ c.toNat)
    (hm : m = 0xD800 + (c.toNat - 0x10000) / 1024) (hn : n = 0xDC00 + (c.toNat - 0x10000) % 1024) :
    isHighSurrogate m = true ∧ to_unicode m n = .ok (String.utf8EncodeChar c) := by
  have hr := char_range c
  have hhigh : isHighSurrogate m = true := by
    rw [isHighSurrogate_iff]
    omega
  have hlow : isLowSurrogate n = true := by
    rw [isLowSurrogate_iff]
    omega
  have hcode : (m <<< 10) + n - 0x35FDC00 = c.toNat := by
    rw [Nat.shiftLeft_eq]
    omega
  exact ⟨hhigh, by rw [to_unicode, if_pos hhigh, if_pos hlow, hcode, encodeCodepoint_char]⟩

lemma exists_pair {m n : ℕ} (hm : isHighSurrogate m = true) (hn : isLowSurrogate n = true) :
    ∃ c : Char, 0x10000 ≤ c.toNat ∧ m = 0xD800 + (c.toNat - 0x10000) / 1024 ∧
      n = 0xDC00 + (c.toNat - 0x10000) % 1024 := by
  rw [isHighSurrogate_iff] at hm
  rw [isLowSurrogate_iff] at hn
  obtain ⟨c, hc⟩ := exists_char (n := (m - 0xD800) * 1024 + (n - 0xDC00) + 0x10000) (by omega)
  have hval : c.toNat = (m - 0xD800) * 1024 + (n - 0xDC00) + 0x10000 := hc
  exact ⟨c, by omega, by omega, by omega⟩

end Unicode

section Values

lemma foldl_strtoul_lt {ds : Bytes} (h : ∀ d ∈ ds, isHex d = true) (acc : ℕ) :
    ds.foldl (fun acc d => 16 * acc + hexValue d) acc < 16 ^ ds.length * (acc + 1) := by
  induction ds generalizing acc with
  | nil => simp
  | cons d ds ih =>
    have hd : hexValue d < 16 := by
      have hhex := h d (by simp)
      revert hhex
      exact forall_byte (P := fun d => isHex d = true → hexValue d < 16) (by decide +kernel) d
    have hrec := ih (fun e he => h e (by simp [he])) (16 * acc + hexValue d)
    rw [List.foldl_cons, List.length_cons, pow_succ]
    calc _ < 16 ^ ds.length * (16 * acc + hexValue d + 1) := hrec
      _ ≤ 16 ^ ds.length * (16 * (acc + 1)) := Nat.mul_le_mul_left _ (by omega)
      _ = 16 ^ ds.length * 16 * (acc + 1) := by ring

lemma Hex4.value_lt (x : Hex4) : x.value < 0x10000 := by
  have hx := x.hex
  simp only [Bool.and_eq_true] at hx
  have hlt := @foldl_strtoul_lt x.text (by simp [Hex4.text, hx]) 0
  simpa [Hex4.value, strtoul, Hex4.text] using hlt

lemma getString_copy {u : Bytes} (h : ∀ b ∈ u, b ≠ 92) (s : Bytes) :
    getString (u ++ s) = (getString s).map (u ++ ·) := by
  induction u with
  | nil => cases hs : getString s <;> simp [hs, Except.map]
  | cons b u ih =>
    have hb := h b (by simp)
    rw [List.cons_append, getString, ih fun c hc => h c (by simp [hc])]
    · cases getString s <;> rfl
    all_goals
      intros
      simp_all

lemma ne_backslash_of_utf8 {c : Char} (h : c ≠ '\\') :
    ∀ b ∈ String.utf8EncodeChar c, b ≠ 92 := by
  by_cases hc : c.toNat < 0x80
  · rw [encodeChar_of_lt hc]
    intro b hb
    obtain rfl := List.mem_singleton.mp hb
    rw [Ne, ← UInt8.toNat_inj, toNat_ofNat_byte (by omega)]
    exact fun he => h (Char.toNat_inj.mp he)
  · intro b hb
    have hle := (utf8_encodeChar c).le_of_mem (length_encodeChar_of_le (by omega)) b hb
    rintro rfl
    simp at hle

lemma encode_singleChar {b : UInt8} (h : isSingleEscaped b = true) :
    String.utf8EncodeChar (singleChar b) = escapeValue b := by
  simp only [isSingleEscaped, Bool.or_eq_true, beq_iff_eq] at h
  rcases h with ((((((rfl | rfl) | rfl) | rfl) | rfl) | rfl) | rfl) | rfl <;> rfl

lemma getString_single {b : UInt8} (h : isSingleEscaped b = true) (s : Bytes) :
    getString (92 :: b :: s) = (getString s).map (String.utf8EncodeChar (singleChar b) ++ ·) := by
  have hu : b ≠ 117 := by
    rintro rfl
    cases h
  rw [getString, encode_singleChar h]
  · cases getString s <;> rfl
  · intros
    simp_all

lemma getString_unicode (x : Hex4) (s : Bytes) : getString ((StringChar.unicode x).text ++ s) =
    if isHighSurrogate x.value then
      match s with
      | 92 :: 117 :: e₁ :: e₂ :: e₃ :: e₄ :: s =>
        (to_unicode x.value (strtoul [e₁, e₂, e₃, e₄])).bind fun c => (getString s).map (c ++ ·)
      | _ => .error missingLowSurrogate
    else if isLowSurrogate x.value then .error missingHighSurrogate
    else (to_unicode x.value 0).bind fun c => (getString s).map (c ++ ·) := by
  rw [StringChar.text, Hex4.text, List.cons_append, List.cons_append, List.cons_append,
    List.cons_append, List.cons_append, List.cons_append, List.nil_append, getString.eq_def]
  simp only [Hex4.value, Hex4.text]
  rfl

lemma getString_basic {x : Hex4} {c : Char} (h : x.value = c.toNat) (s : Bytes) :
    getString ((StringChar.unicode x).text ++ s) =
      (getString s).map (String.utf8EncodeChar c ++ ·) := by
  obtain ⟨hhigh, hlow⟩ := not_surrogate c
  simp [getString_unicode, h, hhigh, hlow, to_unicode_char, Except.bind]

lemma getString_pair {x y : Hex4} {c : Char} (hc : 0x10000 ≤ c.toNat)
    (hx : x.value = 0xD800 + (c.toNat - 0x10000) / 1024)
    (hy : y.value = 0xDC00 + (c.toNat - 0x10000) % 1024) (s : Bytes) :
    getString ((StringChar.unicode x).text ++ ((StringChar.unicode y).text ++ s)) =
      (getString s).map (String.utf8EncodeChar c ++ ·) := by
  obtain ⟨hhigh, hpair⟩ := to_unicode_pair hc hx hy
  have hvaly : strtoul [y.d₁, y.d₂, y.d₃, y.d₄] = y.value := rfl
  rw [getString_unicode, if_pos hhigh]
  simp [StringChar.text, Hex4.text, hvaly, hpair, Except.bind]

theorem getString_of_spells {cs : List StringChar} {v : List Char} (h : Spells cs v) :
    getString (stringText cs) = .ok (encode v) := by
  induction h with
  | nil => rfl
  | @unescaped c hc cs v _ ih =>
    rw [stringText, List.flatMap_cons, StringChar.text,
      getString_copy (ne_backslash_of_utf8 hc.2.2), ← stringText, ih]
    rfl
  | @single b hb cs v _ ih =>
    rw [stringText, List.flatMap_cons, StringChar.text, List.cons_append, List.singleton_append,
      getString_single hb, ← stringText, ih]
    rfl
  | @basic x c cs v hx _ ih =>
    rw [stringText, List.flatMap_cons, getString_basic hx, ← stringText, ih]
    rfl
  | @pair x y c cs v hc hx hy _ ih =>
    rw [stringText, List.flatMap_cons, List.flatMap_cons, getString_pair hc hx hy, ← stringText, ih]
    rfl

lemma getString_high {x : Hex4} (hx : isHighSurrogate x.value = true) (cs : List StringChar) :
    getString ((StringChar.unicode x).text ++ stringText cs) =
      match cs with
      | .unicode y :: cs =>
        (to_unicode x.value y.value).bind fun c => (getString (stringText cs)).map (c ++ ·)
      | _ => .error missingLowSurrogate := by
  rw [getString_unicode, if_pos hx]
  cases cs with
  | nil => rfl
  | cons c cs =>
    cases c with
    | unicode y => rfl
    | single b hb =>
      have hu : b ≠ 117 := by
        rintro rfl
        cases hb
      simp [stringText, StringChar.text, hu]
    | unescaped c hc =>
      obtain ⟨d, u, hd⟩ :=
        List.exists_cons_of_ne_nil (String.utf8EncodeChar_ne_nil (c := c))
      have h92 : d ≠ 92 := ne_backslash_of_utf8 hc.2.2 d (by simp [hd])
      simp [stringText, StringChar.text, hd, h92]

lemma exists_ok_of_map {s : Bytes} {r : Except ParseError Bytes} {f : Bytes → Bytes}
    (h : r.map f = .ok s) : ∃ v, r = .ok v ∧ s = f v := by
  cases r with
  | error e => cases h
  | ok v => exact ⟨v, rfl, (Except.ok.inj h).symm⟩

lemma exists_basic {x : Hex4} (hhigh : isHighSurrogate x.value = false)
    (hlow : isLowSurrogate x.value = false) : ∃ c : Char, x.value = c.toNat := by
  have hlt := x.value_lt
  rw [← Bool.not_eq_true, isHighSurrogate_iff] at hhigh
  rw [← Bool.not_eq_true, isLowSurrogate_iff] at hlow
  obtain ⟨c, hc⟩ := exists_char (n := x.value) (by omega)
  exact ⟨c, hc.symm⟩

theorem spells_of_getString {cs : List StringChar} {s : Bytes}
    (h : getString (stringText cs) = .ok s) : ∃ v, Spells cs v ∧ s = encode v := by
  induction hn : cs.length using Nat.strong_induction_on generalizing cs s with
  | _ n ih =>
    cases cs with
    | nil => exact ⟨[], .nil, (Except.ok.inj h).symm⟩
    | cons c cs =>
      rw [List.length_cons] at hn
      rw [stringText, List.flatMap_cons, ← stringText] at h
      cases c with
      | unescaped c hc =>
        rw [StringChar.text, getString_copy (ne_backslash_of_utf8 hc.2.2)] at h
        obtain ⟨s', hs', rfl⟩ := exists_ok_of_map h
        obtain ⟨v, hv, rfl⟩ := ih cs.length (by omega) hs' rfl
        exact ⟨c :: v, .unescaped hv, rfl⟩
      | single b hb =>
        rw [StringChar.text, List.cons_append, List.singleton_append, getString_single hb] at h
        obtain ⟨s', hs', rfl⟩ := exists_ok_of_map h
        obtain ⟨v, hv, rfl⟩ := ih cs.length (by omega) hs' rfl
        exact ⟨singleChar b :: v, .single hv, rfl⟩
      | unicode x =>
        cases hhigh : isHighSurrogate x.value with
        | false =>
          cases hlow : isLowSurrogate x.value with
          | true => simp [getString_unicode, hhigh, hlow] at h
          | false =>
            obtain ⟨c, hc⟩ := exists_basic hhigh hlow
            rw [getString_basic hc] at h
            obtain ⟨s', hs', rfl⟩ := exists_ok_of_map h
            obtain ⟨v, hv, rfl⟩ := ih cs.length (by omega) hs' rfl
            exact ⟨c :: v, .basic hc hv, rfl⟩
        | true =>
          rw [getString_high hhigh] at h
          cases cs with
          | nil => cases h
          | cons d cs =>
            cases d with
            | unescaped => cases h
            | single => cases h
            | unicode y =>
              dsimp only at h
              cases hlow : isLowSurrogate y.value with
              | false => simp [to_unicode, hhigh, hlow, Except.bind] at h
              | true =>
                obtain ⟨c, hc, hx, hy⟩ := exists_pair hhigh hlow
                rw [(to_unicode_pair hc hx hy).2] at h
                obtain ⟨s', hs', rfl⟩ := exists_ok_of_map h
                obtain ⟨v, hv, rfl⟩ := ih cs.length (by simp only [List.length_cons] at hn; omega)
                  hs' rfl
                exact ⟨c :: v, .pair hc hx hy hv, rfl⟩

lemma get_string_quoted (body rest : Bytes) :
    (Lexer.mk .value_string (quoted body) rest).get_string = getString body := by
  simp [Lexer.get_string, quoted]

/-- `get_string` computes the UTF-8 code of what the token spells, and throws where the
surrogates do not pair up. -/
theorem get_string_eq_ok_iff {cs : List StringChar} {rest s : Bytes} :
    (Lexer.mk .value_string (quoted (stringText cs)) rest).get_string = .ok s ↔
      ∃ v, Spells cs v ∧ s = encode v := by
  rw [get_string_quoted]
  constructor
  · exact spells_of_getString
  · intro ⟨v, hv, hs⟩
    rw [hs]
    exact getString_of_spells hv

end Values

end Gpd.Jsonparser
