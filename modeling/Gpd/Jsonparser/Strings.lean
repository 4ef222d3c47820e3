import Gpd.Jsonparser.Numbers

/-! The string tokens: what the automaton reads from inside a string on. -/
namespace Gpd.Jsonparser
open Text Cxx

lemma between_iff {low high : ℕ} {b : UInt8} :
    between low high b = true ↔ low ≤ b.toNat ∧ b.toNat ≤ high := by simp [between]

lemma stringByClass_lead {a : UInt8} (ha : 0x80 ≤ a.toNat) : stringByClass a = leadByClass a := by
  have hplain : isPlain a = false := by
    simp only [isPlain, Bool.and_eq_false_iff, decide_eq_false_iff_not]
    omega
  have h34 : a ≠ 34 := fun h => by simp [h] at ha
  have h92 : a ≠ 92 := fun h => by simp [h] at ha
  simp [stringByClass, hplain, h34, h92]

lemma reads_l36 {b : UInt8} {s : Bytes} {t : TokenType} :
    Reads .l36 (b :: s) t ↔ Utf8Tail b ∧ Reads .l30 s t := by
  rw [reads_cons_one (p := between 0x80 0xBF) (r := .l30) rfl, between_iff]
  rfl

lemma reads_l38 {b : UInt8} {s : Bytes} {t : TokenType} :
    Reads .l38 (b :: s) t ↔ Utf8Tail b ∧ Reads .l36 s t := by
  rw [reads_cons_one (p := between 0x80 0xBF) (r := .l36) rfl, between_iff]
  rfl

def secondLow (a : UInt8) : ℕ := if a = 0xE0 then 0xA0 else if a = 0xF0 then 0x90 else 0x80

def secondHigh (a : UInt8) : ℕ := if a = 0xED then 0x9F else if a = 0xF4 then 0x8F else 0xBF

lemma utf8Second_iff {a b : UInt8} :
    between (secondLow a) (secondHigh a) b = true ↔ Utf8Second a b := by
  rw [between_iff, secondLow, secondHigh]
  simp only [← UInt8.toNat_inj, UInt8.reduceToNat]
  constructor
  · rintro ⟨hl, hh⟩
    refine ⟨⟨?_, ?_⟩, ?_, ?_, ?_, ?_⟩ <;> split_ifs at hl hh <;> omega
  · rintro ⟨⟨htail, htail'⟩, h1, h2, h3, h4⟩
    constructor <;> split_ifs <;> omega

/-- The label behind the first byte of a character, by the length of the character. -/
inductive Lead : UInt8 → Label → Prop
  | two {a : UInt8} : 0xC2 ≤ a.toNat → a.toNat < 0xE0 → Lead a .l36
  | three {a : UInt8} {q : Label} : 0xE0 ≤ a.toNat → a.toNat < 0xF0 → action q = none →
      (∀ b, byClass q b = one (between (secondLow a) (secondHigh a) b) .l36) → Lead a q
  | four {a : UInt8} {q : Label} : 0xF0 ≤ a.toNat → a.toNat ≤ 0xF4 → action q = none →
      (∀ b, byClass q b = one (between (secondLow a) (secondHigh a) b) .l38) → Lead a q

lemma lead_of_leadByClass {a : UInt8} {q : Label} (h : leadByClass a = some q) : Lead a q := by
  unfold leadByClass at h
  split_ifs at h with h1 h2 h3 h4 h5 h6
  · obtain rfl := Option.some.inj h
    rw [between_iff] at h1
    exact .two h1.1 (by omega)
  · obtain rfl := Option.some.inj h
    subst h2
    exact .three (by decide) (by decide) rfl fun b => rfl
  · obtain rfl := Option.some.inj h
    subst h3
    exact .three (by decide) (by decide) rfl fun b => rfl
  · obtain rfl := Option.some.inj h
    rw [between_iff] at h4
    have hF0 : a ≠ 0xF0 := fun he => absurd h4.2 (by simp [he])
    have hF4 : a ≠ 0xF4 := fun he => absurd h4.2 (by simp [he])
    exact .three (by omega) (by omega) rfl fun b => by
      simp [byClass, secondLow, secondHigh, h2, h3, hF0, hF4]
  · obtain rfl := Option.some.inj h
    subst h5
    exact .four (by decide) (by decide) rfl fun b => rfl
  · obtain rfl := Option.some.inj h
    rw [between_iff] at h6
    have hF4 : a ≠ 0xF4 := fun he => absurd h6.2 (by simp [he])
    exact .four (by omega) (by omega) rfl fun b => by
      simp [byClass, secondLow, secondHigh, h2, h3, h5, hF4]
  · obtain ⟨hF4, rfl⟩ := one_eq_some.mp h
    obtain rfl := of_decide_eq_true hF4
    exact .four (by decide) (by decide) rfl fun b => rfl

lemma exists_leadByClass {a : UInt8} (h : 0xC2 ≤ a.toNat) (h' : a.toNat ≤ 0xF4) :
    ∃ q, leadByClass a = some q := by
  unfold leadByClass
  split_ifs with h1 h2 h3 h4 h5 h6
  all_goals try exact ⟨_, rfl⟩
  rw [between_iff] at h1 h4 h6
  have hE0 : a.toNat ≠ 0xE0 := fun he => h2 (UInt8.toNat_inj.mp he)
  have hF0 : a.toNat ≠ 0xF0 := fun he => h5 (UInt8.toNat_inj.mp he)
  have hF4 : a = 0xF4 := UInt8.toNat_inj.mp (show a.toNat = 0xF4 by omega)
  exact ⟨.l42, one_eq_some.mpr ⟨decide_eq_true hF4, rfl⟩⟩

lemma reads_utf8 {u s : Bytes} {t : TokenType} (h : Utf8 u) (hlong : 1 < u.length) :
    Reads .l30 (u ++ s) t ↔ Reads .l30 s t := by
  obtain ⟨a, l, hu⟩ := List.exists_cons_of_ne_nil (l := u) (by rintro rfl; simp at hlong)
  obtain ⟨hlow, hhigh⟩ : 0xC2 ≤ a.toNat ∧ a.toNat ≤ 0xF4 := by
    cases h with
    | one => simp at hlong
    | two => obtain ⟨rfl, -⟩ := List.cons.inj hu; omega
    | three => obtain ⟨rfl, -⟩ := List.cons.inj hu; omega
    | four => obtain ⟨rfl, -⟩ := List.cons.inj hu; omega
  obtain ⟨q, hq⟩ := exists_leadByClass hlow hhigh
  have hstep (r : Bytes) : Reads .l30 (a :: r) t ↔ Reads q r t := by
    exact reads_step (by rw [byClass, stringByClass_lead (by omega), hq])
  have hlead := lead_of_leadByClass hq
  cases h with
  | one => simp at hlong
  | two ha ha' hb =>
    obtain ⟨rfl, rfl⟩ := List.cons.inj hu
    cases hlead with
    | two => simp [hstep, reads_l36, hb]
    | three => omega
    | four => omega
  | three ha ha' hb hc =>
    obtain ⟨rfl, rfl⟩ := List.cons.inj hu
    cases hlead with
    | two => omega
    | three _ _ _ hq =>
      simp [hstep, reads_cons_one (hq _), utf8Second_iff, reads_l36, hb, hc]
    | four => omega
  | four ha ha' hb hc hd =>
    obtain ⟨rfl, rfl⟩ := List.cons.inj hu
    cases hlead with
    | two => omega
    | three => omega
    | four _ _ _ hq =>
      simp [hstep, reads_cons_one (hq _), utf8Second_iff, reads_l38, reads_l36, hb, hc, hd]

lemma exists_utf8_of_reads {a : UInt8} {q : Label} {s : Bytes} {t : TokenType} (h : Lead a q)
    (hs : Reads q s t) :
    ∃ u s', a :: s = u ++ s' ∧ Utf8 u ∧ 1 < u.length ∧ Reads .l30 s' t := by
  cases h with
  | two ha ha' =>
    cases s with
    | nil => exact absurd hs (reads_nil_of_none rfl t)
    | cons b s =>
      obtain ⟨hb, hs⟩ := reads_l36.mp hs
      exact ⟨[a, b], s, rfl, .two ha ha' hb, by simp, hs⟩
  | three ha ha' hnone hq =>
    cases s with
    | nil => exact absurd hs (reads_nil_of_none hnone t)
    | cons b s =>
      obtain ⟨hb, hs⟩ := (reads_cons_one (hq b)).mp hs
      cases s with
      | nil => exact absurd hs (reads_nil_of_none rfl t)
      | cons c s =>
        obtain ⟨hc, hs⟩ := reads_l36.mp hs
        exact ⟨[a, b, c], s, rfl, .three ha ha' (utf8Second_iff.mp hb) hc, by simp, hs⟩
  | four ha ha' hnone hq =>
    cases s with
    | nil => exact absurd hs (reads_nil_of_none hnone t)
    | cons b s =>
      obtain ⟨hb, hs⟩ := (reads_cons_one (hq b)).mp hs
      cases s with
      | nil => exact absurd hs (reads_nil_of_none rfl t)
      | cons c s =>
        obtain ⟨hc, hs⟩ := reads_l38.mp hs
        cases s with
        | nil => exact absurd hs (reads_nil_of_none rfl t)
        | cons d s =>
          obtain ⟨hd, hs⟩ := reads_l36.mp hs
          exact ⟨[a, b, c, d], s, rfl, .four ha ha' (utf8Second_iff.mp hb) hc hd, by simp, hs⟩

lemma exists_char_of_isPlain {b : UInt8} (h : isPlain b = true) :
    ∃ c : Char, (0x20 ≤ c.toNat ∧ c ≠ '"' ∧ c ≠ '\\') ∧ String.utf8EncodeChar c = [b] := by
  simp only [isPlain, Bool.and_eq_true, decide_eq_true_eq, bne_iff_ne] at h
  obtain ⟨⟨⟨hlow, hhigh⟩, hquote⟩, hslash⟩ := h
  obtain ⟨c, hc⟩ := exists_char (n := b.toNat) (by omega)
  have hcb : String.utf8EncodeChar c = [b] := by
    rw [encodeChar_of_lt (by rw [Char.toNat]; omega), Char.toNat, hc, UInt8.ofNat_toNat]
  refine ⟨c, ⟨by rw [Char.toNat]; omega, ?_, ?_⟩, hcb⟩
  · rintro rfl
    exact hquote (List.cons.inj hcb).1.symm
  · rintro rfl
    exact hslash (List.cons.inj hcb).1.symm

lemma isPlain_of_char {c : Char} (h : 0x20 ≤ c.toNat ∧ c ≠ '"' ∧ c ≠ '\\') (hc : c.toNat < 0x80) :
    isPlain (UInt8.ofNat c.toNat) = true := by
  have hval : (UInt8.ofNat c.toNat).toNat = c.toNat := toNat_ofNat_byte (by omega)
  have hne {d : Char} (hd : c ≠ d) (hd' : d.toNat < 0x80) :
      UInt8.ofNat c.toNat ≠ UInt8.ofNat d.toNat := by
    rw [Ne, ← UInt8.toNat_inj, hval, toNat_ofNat_byte (by omega)]
    exact fun he => hd (Char.toNat_inj.mp he)
  simp only [isPlain, hval, Bool.and_eq_true, decide_eq_true_eq, bne_iff_ne]
  exact ⟨⟨⟨h.1, hc⟩, hne h.2.1 (by decide)⟩, hne h.2.2 (by decide)⟩

lemma reads_hex4 {x : Hex4} {s : Bytes} {t : TokenType} :
    Reads .l55 (x.text ++ s) t ↔ Reads .l30 s t := by
  obtain ⟨d₁, d₂, d₃, d₄, hx⟩ := x
  simp only [Bool.and_eq_true] at hx
  simp [Hex4.text, reads_cons_one (p := isHex) (r := .l65) (q := .l55) rfl,
    reads_cons_one (p := isHex) (r := .l71) (q := .l65) rfl,
    reads_cons_one (p := isHex) (r := .l74) (q := .l71) rfl,
    reads_cons_one (p := isHex) (r := .l30) (q := .l74) rfl, hx]

lemma reads_stringChar (c : StringChar) {s : Bytes} {t : TokenType} :
    Reads .l30 (c.text ++ s) t ↔ Reads .l30 s t := by
  cases c with
  | unescaped c h =>
    rw [StringChar.text]
    by_cases hc : c.toNat < 0x80
    · rw [encodeChar_of_lt hc, List.singleton_append, reads_cons]
      simp [byClass, stringByClass, isPlain_of_char h hc]
    · exact reads_utf8 (utf8_encodeChar c) (length_encodeChar_of_le (by omega))
  | single b h =>
    have h35 : byClass .l35 b = some .l30 := if_pos h
    rw [StringChar.text, List.cons_append, List.singleton_append,
      reads_step (show byClass .l30 92 = some .l35 from rfl), reads_step h35]
  | unicode x =>
    rw [StringChar.text, List.cons_append, List.cons_append,
      reads_step (show byClass .l30 92 = some .l35 from rfl),
      reads_step (show byClass .l35 117 = some .l55 from rfl), reads_hex4]

lemma exists_hex4_of_reads {s : Bytes} {t : TokenType} (h : Reads .l55 s t) :
    ∃ (x : Hex4) (s' : Bytes), s = x.text ++ s' ∧ Reads .l30 s' t := by
  obtain ⟨d₁, s, rfl, h₁, h⟩ := exists_cons_of_reads (fun b => rfl) rfl h
  obtain ⟨d₂, s, rfl, h₂, h⟩ := exists_cons_of_reads (fun b => rfl) rfl h
  obtain ⟨d₃, s, rfl, h₃, h⟩ := exists_cons_of_reads (fun b => rfl) rfl h
  obtain ⟨d₄, s, rfl, h₄, h⟩ := exists_cons_of_reads (fun b => rfl) rfl h
  exact ⟨⟨d₁, d₂, d₃, d₄, by simp [h₁, h₂, h₃, h₄]⟩, s, rfl, h⟩

lemma exists_escape_of_reads {s : Bytes} {t : TokenType} (h : Reads .l35 s t) :
    ∃ (c : StringChar) (s' : Bytes), 92 :: s = c.text ++ s' ∧ Reads .l30 s' t := by
  cases s with
  | nil => exact absurd h (reads_nil_of_none rfl t)
  | cons d s =>
    obtain ⟨q, hq, hs⟩ := reads_cons.mp h
    simp only [byClass] at hq
    split_ifs at hq with hsingle
    · obtain rfl := Option.some.inj hq
      exact ⟨.single d hsingle, s, rfl, hs⟩
    · obtain ⟨hu, rfl⟩ := one_eq_some.mp hq
      obtain rfl := of_decide_eq_true hu
      obtain ⟨x, s', rfl, hs'⟩ := exists_hex4_of_reads hs
      exact ⟨.unicode x, s', rfl, hs'⟩

lemma exists_char_of_long {u : Bytes} (h : Utf8 u) (hlong : 1 < u.length) :
    ∃ c : Char, (0x20 ≤ c.toNat ∧ c ≠ '"' ∧ c ≠ '\\') ∧ u = String.utf8EncodeChar c := by
  obtain ⟨c, rfl⟩ := h.exists_char
  have hc : 0x80 ≤ c.toNat := by
    by_contra hlt
    rw [encodeChar_of_lt (by omega)] at hlong
    simp at hlong
  refine ⟨c, ⟨by omega, ?_, ?_⟩, rfl⟩ <;> rintro rfl <;> simp at hc

lemma StringChar.text_ne_nil (c : StringChar) : c.text ≠ [] := by
  cases c with
  | unescaped c _ => exact String.utf8EncodeChar_ne_nil
  | single => simp [StringChar.text]
  | unicode => simp [StringChar.text]

lemma exists_stringChar_of_reads {s : Bytes} {t : TokenType} (h : Reads .l30 s t) :
    (s = [34] ∧ t = .value_string) ∨
      ∃ (c : StringChar) (s' : Bytes), s = c.text ++ s' ∧ Reads .l30 s' t := by
  cases s with
  | nil => exact absurd h (reads_nil_of_none rfl t)
  | cons b s =>
    obtain ⟨q, hq, hs⟩ := reads_cons.mp h
    simp only [byClass, stringByClass] at hq
    split_ifs at hq with hplain hquote hslash
    · obtain rfl := Option.some.inj hq
      obtain ⟨c, hc, hcb⟩ := exists_char_of_isPlain hplain
      exact .inr ⟨.unescaped c hc, s, by simp [StringChar.text, hcb], hs⟩
    · obtain rfl := Option.some.inj hq
      subst hquote
      cases s with
      | nil =>
        rw [reads_nil] at hs
        exact .inl ⟨rfl, (Action.emit.inj (Option.some.inj hs)).symm⟩
      | cons d s => simp [reads_cons, byClass] at hs
    · obtain rfl := Option.some.inj hq
      subst hslash
      exact .inr (exists_escape_of_reads hs)
    · obtain ⟨u, s', hu, hutf8, hlong, hs'⟩ := exists_utf8_of_reads (lead_of_leadByClass hq) hs
      obtain ⟨c, hc, rfl⟩ := exists_char_of_long hutf8 hlong
      exact .inr ⟨.unescaped c hc, s', hu, hs'⟩

/-- Inside a string the automaton accepts characters and escapes up to a quotation mark. -/
theorem reads_l30 {s : Bytes} {t : TokenType} :
    Reads .l30 s t ↔ ∃ cs, s = stringText cs ++ [34] ∧ t = .value_string := by
  constructor
  · intro h
    induction hn : s.length using Nat.strong_induction_on generalizing s with
    | _ n ih =>
      rcases exists_stringChar_of_reads h with ⟨rfl, rfl⟩ | ⟨c, s', rfl, hs'⟩
      · exact ⟨[], rfl, rfl⟩
      · have hpos := List.length_pos_iff.mpr c.text_ne_nil
        rw [List.length_append] at hn
        obtain ⟨cs, rfl, rfl⟩ := ih s'.length (by omega) hs' rfl
        exact ⟨c :: cs, by simp [stringText], rfl⟩
  · rintro ⟨cs, rfl, rfl⟩
    induction cs with
    | nil => exact ⟨.l33, rfl, rfl⟩
    | cons c cs ih =>
      rw [stringText, List.flatMap_cons, List.append_assoc, reads_stringChar]
      exact ih

end Gpd.Jsonparser
