import Gpd.Jsonparser.Automaton

/-! The number tokens: what the automaton reads from its labels for numbers on. -/
namespace Gpd.Jsonparser
open Text Cxx

/-- The automaton ends on `t` when it reads `s` from the label on. -/
def Reads (q : Label) (s : Bytes) (t : TokenType) : Prop := automaton.Accepts q s (.emit t)

lemma reads_nil {q : Label} {t : TokenType} : Reads q [] t ↔ action q = some (.emit t) :=
  Scanner.accepts_nil

lemma reads_cons {q : Label} {b : UInt8} {s : Bytes} {t : TokenType} :
    Reads q (b :: s) t ↔ ∃ q', byClass q b = some q' ∧ Reads q' s t := by
  unfold Reads
  rw [Scanner.accepts_cons, ← next_eq_byClass]
  rfl

lemma reads_step {q r : Label} {b : UInt8} {s : Bytes} {t : TokenType}
    (h : byClass q b = some r) : Reads q (b :: s) t ↔ Reads r s t := by
  rw [reads_cons, h]
  simp

lemma reads_nil_of_none {q : Label} (h : action q = none) (t : TokenType) : ¬Reads q [] t := by
  simp [reads_nil, h]

lemma one_eq_some {p : Bool} {r q : Label} :
    one p r = some q ↔ p = true ∧ r = q := by
  unfold one
  split_ifs <;> simp_all

lemma reads_cons_one {q r : Label} {p : UInt8 → Bool} {b : UInt8} {s : Bytes} {t : TokenType}
    (hq : byClass q b = one (p b) r) :
    Reads q (b :: s) t ↔ p b = true ∧ Reads r s t := by
  rw [reads_cons, hq]
  constructor
  · rintro ⟨q', hq', h⟩
    obtain ⟨hp, rfl⟩ := one_eq_some.mp hq'
    exact ⟨hp, h⟩
  · rintro ⟨hp, h⟩
    exact ⟨r, one_eq_some.mpr ⟨hp, rfl⟩, h⟩

lemma exists_cons_of_reads {q r : Label} {p : UInt8 → Bool} {s : Bytes} {t : TokenType}
    (hq : ∀ b, byClass q b = one (p b) r) (ha : action q = none) (h : Reads q s t) :
    ∃ b s', s = b :: s' ∧ p b = true ∧ Reads r s' t := by
  cases s with
  | nil => exact absurd h (reads_nil_of_none ha t)
  | cons b s =>
    obtain ⟨hp, hs⟩ := (reads_cons_one (hq b)).mp h
    exact ⟨b, s, rfl, hp, hs⟩

lemma reads_digits {q : Label} {t₀ t : TokenType} {s : Bytes}
    (hq : ∀ b, byClass q b = one (isDigit b) q) (ha : action q = some (.emit t₀)) :
    Reads q s t ↔ (∀ b ∈ s, isDigit b = true) ∧ t = t₀ := by
  induction s with
  | nil =>
    rw [reads_nil, ha, Option.some_inj, Action.emit.injEq]
    exact ⟨fun h => ⟨by simp, h.symm⟩, fun h => h.2.symm⟩
  | cons b s ih =>
    rw [reads_cons_one (hq b), ih]
    simp [and_assoc]

lemma reads_digits_one {q r : Label} {t₀ t : TokenType} {s : Bytes}
    (hq : ∀ b, byClass q b = one (isDigit b) r) (hnone : action q = none)
    (hr : ∀ b, byClass r b = one (isDigit b) r)
    (ha : action r = some (.emit t₀)) :
    Reads q s t ↔ ∃ ds : Digits, s = ds.text ∧ t = t₀ := by
  cases s with
  | nil =>
    rw [reads_nil, hnone]
    refine ⟨fun h => by simp at h, fun ⟨ds, hds, _⟩ => absurd hds.symm ds.nonempty⟩
  | cons b s =>
    rw [reads_cons_one (hq b), reads_digits hr ha]
    constructor
    · rintro ⟨hb, hs, rfl⟩
      exact ⟨⟨b :: s, by simp, by simpa using ⟨hb, hs⟩⟩, rfl, rfl⟩
    · rintro ⟨ds, hds, rfl⟩
      have hdigits := ds.digits
      rw [← hds] at hdigits
      exact ⟨hdigits b (by simp), fun d hd => hdigits d (by simp [hd]), rfl⟩

lemma reads_l51 {s : Bytes} {t : TokenType} :
    Reads .l51 s t ↔ ∃ (sign : Bytes) (ds : Digits), (sign = [] ∨ sign = [43] ∨ sign = [45]) ∧
      s = sign ++ ds.text ∧ t = .value_float := by
  have h60 (r : Bytes) : Reads .l60 r t ↔ (∀ b ∈ r, isDigit b = true) ∧ t = .value_float :=
    reads_digits (fun b => rfl) rfl
  have h59 (r : Bytes) : Reads .l59 r t ↔ ∃ ds : Digits, r = ds.text ∧ t = .value_float :=
    reads_digits_one (r := .l60) (fun b => rfl) rfl (fun b => rfl) rfl
  cases s with
  | nil =>
    rw [reads_nil]
    refine ⟨fun h => by simp [action] at h, fun ⟨sign, ds, _, hs, _⟩ => ?_⟩
    exact absurd (List.append_eq_nil_iff.mp hs.symm).2 ds.nonempty
  | cons b s =>
    rw [reads_cons]
    constructor
    · rintro ⟨q', hq', h⟩
      simp only [byClass] at hq'
      split_ifs at hq' with hb
      · obtain rfl := Option.some.inj hq'
        obtain ⟨hs, rfl⟩ := (h60 s).mp h
        exact ⟨[], ⟨b :: s, by simp, by simpa using ⟨hb, hs⟩⟩, by simp, rfl, rfl⟩
      · obtain ⟨hsign, rfl⟩ := one_eq_some.mp hq'
        obtain ⟨ds, rfl, rfl⟩ := (h59 s).mp h
        refine ⟨[b], ds, ?_, rfl, rfl⟩
        rcases of_decide_eq_true hsign with rfl | rfl <;> simp
    · rintro ⟨sign, ds, hsign, hs, rfl⟩
      rcases hsign with rfl | rfl | rfl
      · obtain ⟨hb, hdigits⟩ : isDigit b = true ∧ ∀ d ∈ s, isDigit d = true := by
          have hdigits := ds.digits
          rw [← List.nil_append ds.text, ← hs] at hdigits
          simpa using hdigits
        exact ⟨.l60, by simp [byClass, hb], (h60 s).mpr ⟨hdigits, rfl⟩⟩
      · obtain ⟨rfl, rfl⟩ := List.cons.inj hs
        exact ⟨.l59, rfl, (h59 _).mpr ⟨ds, rfl, rfl⟩⟩
      · obtain ⟨rfl, rfl⟩ := List.cons.inj hs
        exact ⟨.l59, rfl, (h59 _).mpr ⟨ds, rfl, rfl⟩⟩

lemma isExp_iff {b : UInt8} : isExp b = true ↔ b = 101 ∨ b = 69 := by simp [isExp]

lemma not_isDigit_of_isExp {b : UInt8} (h : isExp b = true) : isDigit b = false := by
  rcases isExp_iff.mp h with rfl | rfl <;> rfl

lemma reads_exponent {b : UInt8} {s : Bytes} {t : TokenType} :
    isExp b = true ∧ Reads .l51 s t ↔
      ∃ x : Exponent, b :: s = x.text ∧ t = .value_float := by
  rw [reads_l51]
  constructor
  · rintro ⟨hb, sign, ds, hsign, rfl, rfl⟩
    exact ⟨⟨b, sign, ds, isExp_iff.mp hb, hsign⟩, rfl, rfl⟩
  · rintro ⟨x, hx, rfl⟩
    obtain ⟨rfl, rfl⟩ := List.cons.inj hx
    exact ⟨isExp_iff.mpr x.e_ok, x.sign, x.digits, x.sign_ok, rfl, rfl⟩

lemma reads_l56 {s : Bytes} {t : TokenType} :
    Reads .l56 s t ↔ ∃ (ds : Bytes) (exp : Option Exponent), (∀ b ∈ ds, isDigit b = true) ∧
      s = ds ++ expText exp ∧ t = .value_float := by
  induction s with
  | nil =>
    rw [reads_nil]
    constructor
    · intro h
      exact ⟨[], none, by simp, rfl, by simpa [action, eq_comm] using h⟩
    · rintro ⟨ds, exp, -, -, rfl⟩
      rfl
  | cons b s ih =>
    rw [reads_cons]
    constructor
    · rintro ⟨q', hq', h⟩
      simp only [byClass] at hq'
      split_ifs at hq' with hb
      · obtain rfl := Option.some.inj hq'
        obtain ⟨ds, exp, hds, rfl, rfl⟩ := ih.mp h
        exact ⟨b :: ds, exp, by simpa using ⟨hb, hds⟩, rfl, rfl⟩
      · obtain ⟨he, rfl⟩ := one_eq_some.mp hq'
        obtain ⟨x, hx, rfl⟩ := reads_exponent.mp ⟨he, h⟩
        exact ⟨[], some x, by simp, hx, rfl⟩
    · rintro ⟨ds, exp, hds, hs, rfl⟩
      cases ds with
      | nil =>
        cases exp with
        | none => simp [expText] at hs
        | some x =>
          obtain ⟨he, h⟩ := reads_exponent.mpr ⟨x, hs, rfl⟩
          exact ⟨.l51, by simp [byClass, not_isDigit_of_isExp he, one, he], h⟩
      | cons d ds =>
        obtain ⟨rfl, rfl⟩ := List.cons.inj hs
        exact ⟨.l56, by simp [byClass, hds b], ih.mpr ⟨ds, exp, fun c hc => hds c (by simp [hc]),
          rfl, rfl⟩⟩

lemma reads_l47 {s : Bytes} {t : TokenType} :
    Reads .l47 s t ↔ ∃ (ds : Digits) (exp : Option Exponent),
      s = ds.text ++ expText exp ∧ t = .value_float := by
  cases s with
  | nil =>
    rw [reads_nil]
    refine ⟨fun h => by simp [action] at h, fun ⟨ds, exp, hs, _⟩ => ?_⟩
    exact absurd (List.append_eq_nil_iff.mp hs.symm).1 ds.nonempty
  | cons b s =>
    rw [reads_cons_one (p := isDigit) (r := .l56) rfl, reads_l56]
    constructor
    · rintro ⟨hb, ds, exp, hds, rfl, rfl⟩
      exact ⟨⟨b :: ds, by simp, by simpa using ⟨hb, hds⟩⟩, exp, rfl, rfl⟩
    · rintro ⟨⟨ds, hne, hds⟩, exp, hs, rfl⟩
      obtain ⟨d, ds, rfl⟩ := List.exists_cons_of_ne_nil hne
      obtain ⟨rfl, rfl⟩ := List.cons.inj hs
      exact ⟨hds b (by simp), ds, exp, fun c hc => hds c (by simp [hc]), rfl, rfl⟩

/-- Type of a number whose integer part alone is a `t`. -/
def fractionalType (t : TokenType) (frac : Option Digits) (exp : Option Exponent) : TokenType :=
  if frac.isNone && exp.isNone then t else .value_float

lemma reads_fractional {q r : Label} {t₀ t : TokenType} {s : Bytes}
    (hq : ∀ b, byClass q b = intByClass r b) (ha : action q = some (.emit t₀))
    (hdigit : ∀ b ∈ s.head?, isDigit b = false) :
    Reads q s t ↔ ∃ (frac : Option Digits) (exp : Option Exponent),
      s = fracText frac ++ expText exp ∧ t = fractionalType t₀ frac exp := by
  cases s with
  | nil =>
    rw [reads_nil, ha]
    constructor
    · intro h
      exact ⟨none, none, rfl, by simpa [fractionalType, eq_comm] using h⟩
    · rintro ⟨frac, exp, hs, rfl⟩
      obtain ⟨hf, he⟩ := List.append_eq_nil_iff.mp hs.symm
      cases frac with
      | some ds => simp [fracText] at hf
      | none =>
        cases exp with
        | some x => simp [expText, Exponent.text] at he
        | none => rfl
  | cons b s =>
    have hb := hdigit b (by simp)
    rw [reads_cons, hq]
    simp only [intByClass, hb, Bool.false_eq_true, if_false]
    constructor
    · rintro ⟨q', hq', h⟩
      split_ifs at hq' with hpoint
      · obtain rfl := Option.some.inj hq'
        obtain ⟨ds, exp, rfl, rfl⟩ := reads_l47.mp h
        exact ⟨some ds, exp, by simp [fracText, hpoint], rfl⟩
      · obtain ⟨he, rfl⟩ := one_eq_some.mp hq'
        obtain ⟨x, hx, rfl⟩ := reads_exponent.mp ⟨he, h⟩
        exact ⟨none, some x, hx, rfl⟩
    · rintro ⟨frac, exp, hs, rfl⟩
      cases frac with
      | some ds =>
        obtain ⟨rfl, rfl⟩ := List.cons.inj hs
        exact ⟨.l47, rfl, reads_l47.mpr ⟨ds, exp, rfl, rfl⟩⟩
      | none =>
        cases exp with
        | none => simp [fracText, expText] at hs
        | some x =>
          obtain ⟨he, h⟩ := reads_exponent.mpr ⟨x, hs, rfl⟩
          refine ⟨.l51, ?_, h⟩
          rcases isExp_iff.mp he with rfl | rfl <;> rfl

lemma not_isDigit_head_fractional (frac : Option Digits) (exp : Option Exponent) :
    ∀ b ∈ (fracText frac ++ expText exp).head?, isDigit b = false := by
  intro b hb
  cases frac with
  | some ds =>
    obtain rfl := Option.some.inj hb
    rfl
  | none =>
    cases exp with
    | none => simp [fracText, expText] at hb
    | some x =>
      obtain rfl := Option.some.inj hb
      exact not_isDigit_of_isExp (isExp_iff.mpr x.e_ok)

lemma reads_int {q : Label} {t₀ t : TokenType} {s : Bytes}
    (hq : ∀ b, byClass q b = intByClass q b) (ha : action q = some (.emit t₀)) :
    Reads q s t ↔ ∃ (ds : Bytes) (frac : Option Digits) (exp : Option Exponent),
      (∀ b ∈ ds, isDigit b = true) ∧ s = ds ++ (fracText frac ++ expText exp) ∧
        t = fractionalType t₀ frac exp := by
  induction s with
  | nil =>
    rw [reads_fractional hq ha (by simp)]
    constructor
    · rintro ⟨frac, exp, hs, rfl⟩
      exact ⟨[], frac, exp, by simp, hs, rfl⟩
    · rintro ⟨ds, frac, exp, -, hs, rfl⟩
      exact ⟨frac, exp, (List.append_eq_nil_iff.mp hs.symm).2.symm, rfl⟩
  | cons b s ih =>
    by_cases hb : isDigit b = true
    · have hstep : byClass q b = some q := by rw [hq, intByClass, if_pos hb]
      rw [reads_cons, hstep]
      constructor
      · rintro ⟨q', hq', h⟩
        obtain rfl := Option.some.inj hq'
        obtain ⟨ds, frac, exp, hds, rfl, rfl⟩ := ih.mp h
        exact ⟨b :: ds, frac, exp, by simpa using ⟨hb, hds⟩, rfl, rfl⟩
      · rintro ⟨ds, frac, exp, hds, hs, rfl⟩
        cases ds with
        | nil =>
          have hhead := not_isDigit_head_fractional frac exp
          rw [List.nil_append] at hs
          rw [← hs] at hhead
          simp [hhead b (by simp)] at hb
        | cons d ds =>
          obtain ⟨rfl, rfl⟩ := List.cons.inj hs
          exact ⟨q, rfl, ih.mpr ⟨ds, frac, exp, fun c hc => hds c (by simp [hc]), rfl, rfl⟩⟩
    · rw [reads_fractional hq ha (by simpa using hb)]
      constructor
      · rintro ⟨frac, exp, hs, rfl⟩
        exact ⟨[], frac, exp, by simp, hs, rfl⟩
      · rintro ⟨ds, frac, exp, hds, hs, rfl⟩
        cases ds with
        | nil => exact ⟨frac, exp, hs, rfl⟩
        | cons d ds =>
          obtain ⟨rfl, -⟩ := List.cons.inj hs
          exact absurd (hds b (by simp)) hb

lemma reads_zero {q : Label} {t₀ t : TokenType} {s : Bytes}
    (hq : ∀ b, byClass q b = intByClass .l48 b) (ha : action q = some (.emit t₀)) :
    Reads q s t ↔ (∃ ds : Digits, s = ds.text ∧ t = .parse_error) ∨
      ∃ (frac : Option Digits) (exp : Option Exponent),
        s = fracText frac ++ expText exp ∧ t = fractionalType t₀ frac exp := by
  by_cases hdigit : ∀ b ∈ s.head?, isDigit b = false
  · rw [reads_fractional hq ha hdigit]
    refine ⟨fun h => .inr h, ?_⟩
    rintro (⟨ds, rfl, -⟩ | h)
    · obtain ⟨d, l, hd⟩ := List.exists_cons_of_ne_nil ds.nonempty
      have htrue := ds.digits d (by simp [hd])
      simp [hdigit d (by simp [hd])] at htrue
    · exact h
  · cases s with
    | nil => simp at hdigit
    | cons b s =>
      have hb : isDigit b = true := by simpa using hdigit
      have hstep : byClass q b = some .l48 := by rw [hq, intByClass, if_pos hb]
      rw [reads_cons, hstep]
      constructor
      · rintro ⟨q', hq', h⟩
        obtain rfl := Option.some.inj hq'
        obtain ⟨hs, rfl⟩ := (reads_digits (fun c => rfl) rfl).mp h
        exact .inl ⟨⟨b :: s, by simp, by simpa using ⟨hb, hs⟩⟩, rfl, rfl⟩
      · rintro (⟨ds, hds, rfl⟩ | ⟨frac, exp, hs, -⟩)
        · have hdigits := ds.digits
          rw [← hds] at hdigits
          exact ⟨.l48, rfl, (reads_digits (fun c => rfl) rfl).mpr
            ⟨fun d hd => hdigits d (by simp [hd]), rfl⟩⟩
        · have hhead := not_isDigit_head_fractional frac exp
          rw [← hs] at hhead
          simp [hhead b (by simp)] at hb

/-- A word of the number rules, behind its sign. -/
def UnsignedNumber (t₀ : TokenType) (s : Bytes) (t : TokenType) : Prop :=
  (∃ ds : Digits, s = 48 :: ds.text ∧ t = .parse_error) ∨
    ∃ (int : Bytes) (frac : Option Digits) (exp : Option Exponent), IntText int ∧
      s = int ++ (fracText frac ++ expText exp) ∧ t = fractionalType t₀ frac exp

lemma reads_unsigned {zero positive : Label} {t₀ t : TokenType} {b : UInt8} {s : Bytes}
    (hzero : ∀ c, byClass zero c = intByClass .l48 c) (hzeroAction : action zero = some (.emit t₀))
    (hpositive : ∀ c, byClass positive c = intByClass positive c)
    (hpositiveAction : action positive = some (.emit t₀)) (hb : isDigit b = true) :
    Reads (if b = 48 then zero else positive) s t ↔ UnsignedNumber t₀ (b :: s) t := by
  by_cases h0 : b = 48
  · subst h0
    rw [if_pos rfl, reads_zero hzero hzeroAction]
    constructor
    · rintro (⟨ds, rfl, rfl⟩ | ⟨frac, exp, rfl, rfl⟩)
      · exact .inl ⟨ds, rfl, rfl⟩
      · exact .inr ⟨[48], frac, exp, .zero, rfl, rfl⟩
    · rintro (⟨ds, hs, rfl⟩ | ⟨int, frac, exp, hint, hs, rfl⟩)
      · exact .inl ⟨ds, (List.cons.inj hs).2, rfl⟩
      · cases hint with
        | zero => exact .inr ⟨frac, exp, (List.cons.inj hs).2, rfl⟩
        | positive _ hd _ => exact absurd (List.cons.inj hs).1.symm hd
  · rw [if_neg h0, reads_int hpositive hpositiveAction]
    constructor
    · rintro ⟨ds, frac, exp, hds, rfl, rfl⟩
      exact .inr ⟨b :: ds, frac, exp, .positive hb h0 hds, rfl, rfl⟩
    · rintro (⟨ds, hs, rfl⟩ | ⟨int, frac, exp, hint, hs, rfl⟩)
      · exact absurd (List.cons.inj hs).1 h0
      · cases hint with
        | zero => exact absurd (List.cons.inj hs).1 h0
        | positive _ _ hds => exact ⟨_, frac, exp, hds, (List.cons.inj hs).2, rfl⟩

end Gpd.Jsonparser
