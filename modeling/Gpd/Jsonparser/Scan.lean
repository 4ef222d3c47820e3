import Gpd.Jsonparser.Tokens

/-! The scanner: it skips white space and reads the longest text of a token. -/
namespace Gpd.Jsonparser
open Text Cxx

lemma munch_length {s rest : Bytes} {a : Action}
    (h : automaton.munch s .start none = some (a, rest)) : rest.length < s.length := by
  obtain ⟨u, rfl, hu⟩ := (Scanner.munch_eq_some_iff.mp h).accepts
  cases u with
  | nil => cases Scanner.accepts_nil.mp hu
  | cons b u => simp

lemma scanLoop_eq {n m : ℕ} {s : Bytes} (hn : s.length < n) (hm : s.length < m) :
    scanLoop n s = scanLoop m s := by
  induction n generalizing m s with
  | zero => omega
  | succ n ih =>
    cases m with
    | zero => omega
    | succ m =>
      unfold scanLoop
      cases h : automaton.munch s .start none with
      | none => rfl
      | some r =>
        obtain ⟨a, rest⟩ := r
        have hlt := munch_length h
        cases a with
        | emit t => rfl
        | skip => exact ih (by omega) (by omega)

/-- The loop always terminates: what it computes does not depend on the rounds allowed. -/
theorem scan_eq (s : Bytes) : scan s =
    match automaton.munch s .start none with
    | some (.skip, rest) => scan rest
    | some (.emit t, rest) => ⟨t, s.take (s.length - rest.length), rest⟩
    | none => ⟨.end_of_input, [], s⟩ := by
  rw [scan, scanLoop]
  cases h : automaton.munch s .start none with
  | none => rfl
  | some r =>
    obtain ⟨a, rest⟩ := r
    have hlt := munch_length h
    cases a with
    | emit t => rfl
    | skip => exact scanLoop_eq (by omega) (by omega)

lemma next_l6 (b : UInt8) : automaton.next .l6 b = one (isWs b) .l6 := next_eq_byClass .l6 b

lemma run_l6 {w : Bytes} (h : ∀ b ∈ w, isWs b = true) : automaton.run .l6 w = some .l6 := by
  induction w with
  | nil => rfl
  | cons b w ih =>
    rw [Scanner.run_cons, next_l6, one, if_pos (h b (by simp)), Option.bind_some]
    exact ih fun c hc => h c (by simp [hc])

lemma munch_space {b : UInt8} {w rest : Bytes} (hb : isWs b = true) (h : ∀ c ∈ w, isWs c = true)
    (hrest : ∀ c ∈ rest.head?, isWs c = false) :
    automaton.munch (b :: w ++ rest) .start none = some (.skip, rest) := by
  have hrun : automaton.run .start (b :: w) = some .l6 := by
    have hstart : automaton.next .start b = some .l6 := by
      refine (next_eq_byClass .start b).trans ?_
      rw [byClass, start_space hb]
    rw [Scanner.run_cons, hstart, Option.bind_some, run_l6 h]
  refine Scanner.munch_append hrun rfl fun c hc => ?_
  rw [next_l6, one, if_neg (by simp [hrest c hc])]

lemma scan_space {b : UInt8} (s : Bytes) (hb : isWs b = true) : scan (b :: s) = scan s := by
  have hw : ∀ c ∈ s.takeWhile isWs, isWs c = true := fun c hc => List.mem_takeWhile_imp hc
  have hrest : ∀ c ∈ (s.dropWhile isWs).head?, isWs c = false := by
    intro c hc
    have hhead := List.head?_dropWhile_not isWs s
    rw [Option.mem_def.mp hc] at hhead
    simpa using hhead
  have hskip : scan (b :: s) = scan (s.dropWhile isWs) := by
    rw [scan_eq, ← List.takeWhile_append_dropWhile (p := isWs) (l := s), ← List.cons_append,
      munch_space hb hw hrest]
    simp
  rw [hskip]
  cases hs : s.takeWhile isWs with
  | nil =>
    have hd := List.takeWhile_append_dropWhile (p := isWs) (l := s)
    rw [hs, List.nil_append] at hd
    rw [hd]
  | cons c w =>
    rw [hs] at hw
    conv_rhs => rw [← List.takeWhile_append_dropWhile (p := isWs) (l := s), hs]
    rw [scan_eq (c :: w ++ _), munch_space (hw c (by simp)) (fun d hd => hw d (by simp [hd])) hrest]

theorem scan_append {w : Bytes} (h : ∀ b ∈ w, isWs b = true) (s : Bytes) :
    scan (w ++ s) = scan s := by
  induction w with
  | nil => rfl
  | cons b w ih =>
    rw [List.cons_append, scan_space _ (h b (by simp))]
    exact ih fun c hc => h c (by simp [hc])

/-- A label from which the loop does not go on. -/
def Inner (q : Label) : Prop := q ≠ .start ∧ q ≠ .l6

instance (q : Label) : Decidable (Inner q) := by
  unfold Inner
  infer_instance

lemma inner_one {p : Bool} {target q : Label} (h : one p target = some q) (ht : Inner target) :
    Inner q := by
  obtain ⟨-, rfl⟩ := one_eq_some.mp h
  exact ht

lemma inner_ite {c : Prop} [Decidable c] {target q : Label} {other : Option Label}
    (h : (if c then some target else other) = some q) (ht : Inner target)
    (hother : other = some q → Inner q) : Inner q := by
  split_ifs at h with hc
  · obtain rfl := Option.some.inj h
    exact ht
  · exact hother h

lemma inner_intByClass {target q : Label} {b : UInt8} (h : intByClass target b = some q)
    (ht : Inner target) : Inner q :=
  inner_ite h ht fun h => inner_ite h (by decide) fun h => inner_one h (by decide)

lemma inner_stringByClass {q : Label} {b : UInt8} (h : stringByClass b = some q) : Inner q := by
  refine inner_ite h (by decide) fun h => inner_ite h (by decide) fun h =>
    inner_ite h (by decide) fun h => ?_
  exact inner_ite h (by decide) fun h => inner_ite h (by decide) fun h =>
    inner_ite h (by decide) fun h => inner_ite h (by decide) fun h =>
      inner_ite h (by decide) fun h => inner_ite h (by decide) fun h => inner_one h (by decide)

lemma inner_byClass {q q' : Label} {b : UInt8} (hq : Inner q) (h : byClass q b = some q') :
    Inner q' := by
  cases q
  case start => exact absurd rfl hq.1
  case l6 => exact absurd rfl hq.2
  case l9 => exact inner_stringByClass h
  case l30 => exact inner_stringByClass h
  case l13 => exact inner_intByClass h (by decide)
  case l43 => exact inner_intByClass h (by decide)
  case l15 => exact inner_intByClass h (by decide)
  case l45 => exact inner_intByClass h (by decide)
  case l12 => exact inner_ite h (by decide) fun h => inner_one h (by decide)
  case l35 => exact inner_ite h (by decide) fun h => inner_one h (by decide)
  case l51 => exact inner_ite h (by decide) fun h => inner_one h (by decide)
  case l56 => exact inner_ite h (by decide) fun h => inner_one h (by decide)
  all_goals first | cases h | exact inner_one h (by decide)

lemma inner_start {b : UInt8} (hb : isWs b = false) : Inner (startByClass b) := by
  revert hb
  exact forall_byte (P := fun b => isWs b = false → Inner (startByClass b)) (by decide +kernel) b

lemma inner_run {q q' : Label} {u : Bytes} (hq : Inner q) (h : automaton.run q u = some q') :
    Inner q' := by
  induction u generalizing q with
  | nil =>
    obtain rfl := Option.some.inj h
    exact hq
  | cons b u ih =>
    obtain ⟨q₁, hq₁, h⟩ := Option.bind_eq_some_iff.mp (Scanner.run_cons (A := automaton) q b u ▸ h)
    exact ih (inner_byClass hq ((next_eq_byClass q b).symm.trans hq₁)) h

lemma exists_lexeme_of_accepts {u : Bytes} {a : Action} (hws : ∀ b ∈ u.head?, isWs b = false)
    (h : automaton.Accepts .start u a) : ∃ t, a = .emit t ∧ Lexeme t u := by
  cases a with
  | emit t => exact ⟨t, rfl, reads_start.mp h⟩
  | skip =>
    obtain ⟨q', hq', hskip⟩ := h
    cases u with
    | nil =>
      obtain rfl := Option.some.inj hq'
      cases hskip
    | cons b u =>
      obtain ⟨q₁, hq₁, hrun⟩ :=
        Option.bind_eq_some_iff.mp (Scanner.run_cons (A := automaton) .start b u ▸ hq')
      obtain rfl := Option.some.inj ((next_eq_byClass .start b).symm.trans hq₁)
      have hinner := inner_run (inner_start (hws b (by simp))) hrun
      have hl6 : ∀ q, Inner q → action q ≠ some .skip := by
        intro q hq
        cases q <;> simp_all [Inner, action]
      exact absurd hskip (hl6 q' hinner)

lemma exists_lexeme {b : UInt8} (hb : isWs b = false) : ∃ t, Lexeme t [b] := by
  by_cases hdigit : isDigit b = true
  · refine ⟨.value_unsigned, .number ⟨false, [b], none, none, ?_⟩⟩
    by_cases h0 : b = 48
    · exact h0 ▸ .zero
    · exact .positive hdigit h0 (by simp)
  · cases hst : structural b with
    | some t => exact ⟨t, .structural hst⟩
    | none => exact ⟨.parse_error, .other hst hb (by simpa using hdigit)⟩

/-- No token text is longer in front of the rest. -/
def Maximal (u rest : Bytes) : Prop :=
  ∀ u' v t, u ++ rest = u' ++ v → Lexeme t u' → u'.length ≤ u.length

lemma munch_emit_iff {s rest : Bytes} {t : TokenType} (hws : ∀ b ∈ s.head?, isWs b = false) :
    automaton.munch s .start none = some (.emit t, rest) ↔
      ∃ u, s = u ++ rest ∧ Lexeme t u ∧ Maximal u rest := by
  rw [Scanner.munch_eq_some_iff]
  constructor
  · rintro ⟨⟨u, rfl, hu⟩, hlongest⟩
    refine ⟨u, rfl, reads_start.mp hu, fun u' v t' hs hu' => ?_⟩
    have hle := hlongest u' v _ hs (reads_start.mpr hu')
    have hlen := congrArg List.length hs
    simp only [List.length_append] at hlen
    omega
  · rintro ⟨u, rfl, hu, hmax⟩
    refine ⟨⟨u, rfl, reads_start.mpr hu⟩, fun u' v a hs hu' => ?_⟩
    have hhead : ∀ b ∈ u'.head?, isWs b = false := by
      intro b hb
      cases u' with
      | nil => simp at hb
      | cons c u' => exact hws b (by rw [hs]; simpa using hb)
    obtain ⟨t', rfl, hlex⟩ := exists_lexeme_of_accepts hhead hu'
    have hle := hmax u' v t' hs hlex
    have hlen := congrArg List.length hs
    simp only [List.length_append] at hlen
    omega

lemma scan_of_munch {s rest : Bytes} {t : TokenType}
    (h : automaton.munch s .start none = some (.emit t, rest)) :
    scan s = ⟨t, s.take (s.length - rest.length), rest⟩ := by
  rw [scan_eq, h]

theorem scan_of_maximal {u rest : Bytes} {t : TokenType} (h : Lexeme t u) (hmax : Maximal u rest)
    (hws : ∀ b ∈ (u ++ rest).head?, isWs b = false) : scan (u ++ rest) = ⟨t, u, rest⟩ := by
  rw [scan_of_munch ((munch_emit_iff hws).mpr ⟨u, rfl, h, hmax⟩)]
  simp

lemma exists_munch {s : Bytes} (hs : s ≠ []) (hws : ∀ b ∈ s.head?, isWs b = false) :
    ∃ t rest, automaton.munch s .start none = some (.emit t, rest) := by
  obtain ⟨b, s, rfl⟩ := List.exists_cons_of_ne_nil hs
  obtain ⟨t, ht⟩ := exists_lexeme (hws b (by simp))
  cases hm : automaton.munch (b :: s) .start none with
  | none => exact absurd (reads_start.mpr ht) (Scanner.not_accepts_of_munch hm [b] s _ rfl)
  | some r =>
    obtain ⟨a, rest⟩ := r
    obtain ⟨u, hu, hacc⟩ := (Scanner.munch_eq_some_iff.mp hm).accepts
    have hhead : ∀ c ∈ u.head?, isWs c = false := by
      intro c hc
      cases u with
      | nil => simp at hc
      | cons d u => exact hws c (by rw [hu]; simpa using hc)
    obtain ⟨t', rfl, -⟩ := exists_lexeme_of_accepts hhead hacc
    exact ⟨t', rest, rfl⟩

/-- The scanner skips white space and reads the longest text of a token behind it. -/
theorem scan_eq_iff {s u rest : Bytes} {t : TokenType} (hs : ∃ b ∈ s, isWs b = false) :
    scan s = ⟨t, u, rest⟩ ↔
      ∃ w, (∀ b ∈ w, isWs b = true) ∧ s = w ++ (u ++ rest) ∧ Lexeme t u ∧ Maximal u rest ∧
        ∀ b ∈ (u ++ rest).head?, isWs b = false := by
  constructor
  · intro h
    have hw : ∀ b ∈ s.takeWhile isWs, isWs b = true := fun b hb => List.mem_takeWhile_imp hb
    have hsplit := List.takeWhile_append_dropWhile (p := isWs) (l := s)
    have hne : s.dropWhile isWs ≠ [] := by
      obtain ⟨b, hb, hbws⟩ := hs
      intro hnil
      rw [hnil, List.append_nil] at hsplit
      rw [← hsplit] at hb
      simp [hw b hb] at hbws
    have hhead : ∀ b ∈ (s.dropWhile isWs).head?, isWs b = false := by
      intro b hb
      have h := List.head?_dropWhile_not isWs s
      rw [Option.mem_def.mp hb] at h
      simpa using h
    obtain ⟨t', rest', hm⟩ := exists_munch hne hhead
    obtain ⟨u', hu', hlex, hmax⟩ := (munch_emit_iff hhead).mp hm
    rw [← hsplit, scan_append hw, hu', scan_of_maximal hlex hmax (hu' ▸ hhead)] at h
    obtain ⟨rfl, rfl, rfl⟩ := Lexer.mk.inj h
    exact ⟨s.takeWhile isWs, hw, by rw [← hu', hsplit], hlex, hmax, hu' ▸ hhead⟩
  · rintro ⟨w, hw, rfl, hlex, hmax, hhead⟩
    rw [scan_append hw, scan_of_maximal hlex hmax hhead]

/-- Of a text in its buffer, the scanner skips white space and reads the longest text of a token;
the null byte behind the text is one. -/
theorem scan_buffer_iff {s u rest : Bytes} {t : TokenType} :
    scan (buffer s) = ⟨t, u, rest⟩ ↔
      ∃ w, (∀ b ∈ w, isWs b = true) ∧ buffer s = w ++ (u ++ rest) ∧ Lexeme t u ∧
        Maximal u rest ∧ ∀ b ∈ (u ++ rest).head?, isWs b = false :=
  scan_eq_iff ⟨0, by simp [buffer], rfl⟩

/-- A character that goes on a number. -/
def numberChar (b : UInt8) : Bool := isDigit b || b == 46 || isExp b

def TokenType.isNumber (t : TokenType) : Bool :=
  t = .value_unsigned || t = .value_integer || t = .value_float

lemma byClass_of_action {q : Label} {t : TokenType} {b : UInt8} (ha : action q = some (.emit t))
    (ht : t ≠ .parse_error) (hb : t.isNumber = true → numberChar b = false) :
    byClass q b = none := by
  have hstop {target : Label} (hn : numberChar b = false) : intByClass target b = none := by
    simp only [numberChar, Bool.or_eq_false_iff, beq_eq_false_iff_ne] at hn
    simp [intByClass, one, hn]
  have hdigit (hn : numberChar b = false) : isDigit b = false := by
    simp only [numberChar, Bool.or_eq_false_iff] at hn
    exact hn.1.1
  have hexp (hn : numberChar b = false) : isExp b = false := by
    simp only [numberChar, Bool.or_eq_false_iff] at hn
    exact hn.2
  cases q <;> simp only [action, reduceCtorEq, Option.some_inj, Action.emit.injEq] at ha
  all_goals subst ha
  all_goals first
    | rfl
    | exact absurd rfl ht
    | exact hstop (hb rfl)
    | simp [byClass, one, hdigit (hb rfl), hexp (hb rfl)]

theorem scan_lexeme {u rest : Bytes} {t : TokenType} (h : Lexeme t u) (ht : t ≠ .parse_error)
    (hrest : t.isNumber = true → ∀ b ∈ rest.head?, numberChar b = false) :
    scan (u ++ rest) = ⟨t, u, rest⟩ := by
  obtain ⟨q, hq, ha⟩ := reads_start.mpr h
  have hm : automaton.munch (u ++ rest) .start none = some (.emit t, rest) :=
    Scanner.munch_append hq ha fun b hb =>
      (next_eq_byClass q b).trans (byClass_of_action ha ht fun hn => hrest hn b hb)
  rw [scan_of_munch hm]
  simp

end Gpd.Jsonparser
