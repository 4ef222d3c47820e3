import Gpd.Jsonparser.Parser

/-! The grammar of JSON texts with the values they stand for, and that the parser accepts
them. -/
namespace Gpd.Jsonparser
open Text Cxx

/-- A run of white space. -/
def Ws (w : Bytes) : Prop := ∀ b ∈ w, isWs b = true

section Grammar

variable (libc : Libc)

mutual

/-- A text and the value it stands for. -/
inductive Value : Bytes → Json → Prop
  | null : Value (ascii "null") .null
  | true : Value (ascii "true") (.boolean true)
  | false : Value (ascii "false") (.boolean false)
  | string {cs : List StringChar} {v : List Char} : Spells cs v →
      Value (quoted (stringText cs)) (.string (encode v))
  | number (n : NumberText) : Value n.text (n.value libc)
  | emptyArray {w : Bytes} : Ws w → Value (91 :: (w ++ [93])) (.array [])
  | array {e w : Bytes} {js : List Json} : Elements e js → Ws w →
      Value (91 :: (e ++ (w ++ [93]))) (.array js)
  | emptyObject {w : Bytes} : Ws w → Value (123 :: (w ++ [125])) (.object [])
  | object {m w : Bytes} {ms : List (Bytes × Json)} : Members m ms → Ws w →
      Value (123 :: (m ++ (w ++ [125]))) (.object (Map.ofEntries ms))

/-- Values with commas between them. -/
inductive Elements : Bytes → List Json → Prop
  | last {w u : Bytes} {j : Json} : Ws w → Value u j → Elements (w ++ u) [j]
  | cons {w u w' e : Bytes} {j : Json} {js : List Json} : Ws w → Value u j → Ws w' →
      Elements e js → Elements (w ++ (u ++ (w' ++ 44 :: e))) (j :: js)

/-- Keys with values, and commas between them. -/
inductive Members : Bytes → List (Bytes × Json) → Prop
  | last {w w₁ w₂ u : Bytes} {cs : List StringChar} {k : List Char} {j : Json} : Ws w →
      Spells cs k → Ws w₁ → Ws w₂ → Value u j →
      Members (w ++ (quoted (stringText cs) ++ (w₁ ++ 58 :: (w₂ ++ u)))) [(encode k, j)]
  | cons {w w₁ w₂ u w₃ m : Bytes} {cs : List StringChar} {k : List Char} {j : Json}
      {ms : List (Bytes × Json)} : Ws w → Spells cs k → Ws w₁ → Ws w₂ → Value u j → Ws w₃ →
      Members m ms →
      Members (w ++ (quoted (stringText cs) ++ (w₁ ++ 58 :: (w₂ ++ (u ++ (w₃ ++ 44 :: m))))))
        ((encode k, j) :: ms)

end

/-- A text with one value in it. -/
def Document (s : Bytes) (j : Json) : Prop :=
  ∃ w u w', s = w ++ (u ++ w') ∧ Ws w ∧ Value libc u j ∧ Ws w'

end Grammar

section Steps

variable {libc : Libc}

lemma ne_parse_error_of_structural {b : UInt8} {t : TokenType} (h : structural b = some t) :
    t ≠ .parse_error ∧ t.isNumber = false := by
  unfold structural at h
  split_ifs at h <;> obtain rfl := Option.some.inj h <;> exact ⟨by decide, rfl⟩

lemma scan_structural {b : UInt8} {t : TokenType} (h : structural b = some t) (s : Bytes) :
    scan (b :: s) = ⟨t, [b], s⟩ := by
  obtain ⟨hne, hnum⟩ := ne_parse_error_of_structural h
  exact scan_lexeme (.structural h) hne (by simp [hnum])

lemma scan_ws_structural {w : Bytes} {b : UInt8} {t : TokenType} (hw : Ws w)
    (h : structural b = some t) (s : Bytes) : scan (w ++ b :: s) = ⟨t, [b], s⟩ := by
  rw [scan_append hw, scan_structural h]

lemma scan_quoted (cs : List StringChar) (s : Bytes) :
    scan (quoted (stringText cs) ++ s) = ⟨.value_string, quoted (stringText cs), s⟩ :=
  scan_lexeme (.string cs) (by simp) (by simp [TokenType.isNumber])

lemma string_of_spells {cs : List StringChar} {v : List Char} (h : Spells cs v) (s : Bytes) :
    (Lexer.mk .value_string (quoted (stringText cs)) s).string = .ok (encode v) := by
  rw [Lexer.string, get_string_quoted, getString_of_spells h]

/-- Nothing goes on a number in front of the text. -/
def Follow (s : Bytes) : Prop := ∀ b ∈ s.head?, numberChar b = false

lemma follow_ws {w : Bytes} (hw : Ws w) {b : UInt8} (hb : numberChar b = false) (s : Bytes) :
    Follow (w ++ b :: s) := by
  intro c hc
  cases w with
  | nil =>
    obtain rfl := Option.some.inj hc
    exact hb
  | cons d w =>
    obtain rfl := Option.some.inj hc
    have hd := hw d (by simp)
    simp only [isWs, Bool.or_eq_true, beq_iff_eq] at hd
    rcases hd with ((rfl | rfl) | rfl) | rfl <;> rfl

lemma lexeme_structural {t : TokenType} {u : Bytes} {b : UInt8} (h : Lexeme t u)
    (ht : structural b = some t) : ∃ c, u = [c] ∧ structural c = some t := by
  obtain ⟨hne, hnum⟩ := ne_parse_error_of_structural ht
  have hother : t ≠ .literal_null ∧ t ≠ .literal_true ∧ t ≠ .literal_false ∧ t ≠ .value_string := by
    unfold structural at ht
    split_ifs at ht <;> obtain rfl := Option.some.inj ht <;> decide
  cases h with
  | structural hc => exact ⟨_, rfl, hc⟩
  | literal_null => exact absurd rfl hother.1
  | literal_true => exact absurd rfl hother.2.1
  | literal_false => exact absurd rfl hother.2.2.1
  | string => exact absurd rfl hother.2.2.2
  | number n =>
    unfold NumberText.tokenType at hnum
    split_ifs at hnum <;> cases hnum
  | invalidInt => exact absurd rfl hne
  | other => exact absurd rfl hne

lemma structural_of_scan {b c : UInt8} {s : Bytes} {t : TokenType} (hb : isWs b = false)
    (h : (scan (b :: s)).last_token = t) (ht : structural c = some t) : structural b = some t := by
  cases hl : scan (b :: s) with
  | mk t' u rest =>
    obtain ⟨w, hw, hs, hlex, -, -⟩ := (scan_eq_iff ⟨b, by simp, hb⟩).mp hl
    obtain rfl : t' = t := by rw [← h, hl]
    obtain ⟨d, rfl, hd⟩ := lexeme_structural hlex ht
    cases w with
    | nil =>
      obtain ⟨rfl, -⟩ := List.cons.inj hs
      exact hd
    | cons e w =>
      obtain ⟨rfl, -⟩ := List.cons.inj hs
      simp [hw b (by simp)] at hb

/-- What a value begins with. -/
def BeginsValue (b : UInt8) : Prop :=
  isWs b = false ∧ ∀ t, structural b = some t → t = .begin_array ∨ t = .begin_object

lemma beginsValue_digit {b : UInt8} (h : isDigit b = true) : BeginsValue b := by
  have hnone : isWs b = false ∧ structural b = none := by
    revert h
    exact forall_byte (P := fun b => isDigit b = true → isWs b = false ∧ structural b = none)
      (by decide +kernel) b
  exact ⟨hnone.1, by simp [hnone.2]⟩

lemma Value.exists_cons {u : Bytes} {j : Json} (h : Value libc u j) :
    ∃ b s, u = b :: s ∧ BeginsValue b := by
  have hbegins {b : UInt8} (hws : isWs b = .false)
      (hst : ∀ t, structural b = some t → t = .begin_array ∨ t = .begin_object) : BeginsValue b :=
    ⟨hws, hst⟩
  cases h with
  | null => exact ⟨110, _, rfl, hbegins rfl (by simp [structural])⟩
  | true => exact ⟨116, _, rfl, hbegins rfl (by simp [structural])⟩
  | false => exact ⟨102, _, rfl, hbegins rfl (by simp [structural])⟩
  | string => exact ⟨34, _, rfl, hbegins rfl (by simp [structural])⟩
  | number n =>
    obtain ⟨d, ds, hd, hdigit⟩ := n.int_ok.exists_cons
    cases hminus : n.minus with
    | true =>
      refine ⟨45, n.int ++ (fracText n.frac ++ expText n.exp), ?_,
        hbegins rfl (by simp [structural])⟩
      simp [NumberText.text, hminus, minusText]
    | false =>
      refine ⟨d, ds ++ (fracText n.frac ++ expText n.exp), ?_, beginsValue_digit hdigit⟩
      simp [NumberText.text, hminus, minusText, hd]
  | emptyArray => exact ⟨91, _, rfl, hbegins rfl (by simp [structural])⟩
  | array => exact ⟨91, _, rfl, hbegins rfl (by simp [structural])⟩
  | emptyObject => exact ⟨123, _, rfl, hbegins rfl (by simp [structural])⟩
  | object => exact ⟨123, _, rfl, hbegins rfl (by simp [structural])⟩

lemma Value.last_token_ne {u : Bytes} {j : Json} (h : Value libc u j) (rest : Bytes) {c : UInt8}
    {t : TokenType} (ht : structural c = some t) (ht' : t ≠ .begin_array ∧ t ≠ .begin_object) :
    (scan (u ++ rest)).last_token ≠ t := by
  obtain ⟨b, s, rfl, hws, hb⟩ := h.exists_cons
  intro heq
  have hst := structural_of_scan hws heq ht
  rcases hb t hst with rfl | rfl
  · exact ht'.1 rfl
  · exact ht'.2 rfl

lemma Elements.last_token_ne {e : Bytes} {js : List Json} (h : Elements libc e js) (rest : Bytes)
    {c : UInt8} {t : TokenType} (ht : structural c = some t)
    (ht' : t ≠ .begin_array ∧ t ≠ .begin_object) : (scan (e ++ rest)).last_token ≠ t := by
  cases h with
  | last hw hu =>
    rw [List.append_assoc, scan_append hw]
    exact hu.last_token_ne _ ht ht'
  | cons hw hu _ _ =>
    rw [List.append_assoc, scan_append hw, List.append_assoc]
    exact hu.last_token_ne _ ht ht'

lemma Members.last_token {m : Bytes} {ms : List (Bytes × Json)} (h : Members libc m ms)
    (rest : Bytes) : (scan (m ++ rest)).last_token = .value_string := by
  cases h with
  | last hw => rw [List.append_assoc, scan_append hw, List.append_assoc, scan_quoted]
  | cons hw => rw [List.append_assoc, scan_append hw, List.append_assoc, scan_quoted]

end Steps

section Completeness

variable {libc : Libc}

lemma skipSeparator_of_ne {lx : Lexer} (h : lx.last_token ≠ .value_separator) :
    lx.skipSeparator = lx := if_neg h

lemma skipSeparator_comma (s : Bytes) : (Lexer.mk .value_separator [44] s).skipSeparator = scan s :=
  if_pos rfl

mutual

theorem Value.parse {u : Bytes} {j : Json} (h : Value libc u j) {rest : Bytes} {n : ℕ}
    (hrest : Follow rest) (hn : 2 * u.length + 1 ≤ n) :
    parse_internal libc n (scan (u ++ rest)) = .ok (some j, scan rest) := by
  obtain ⟨n, rfl⟩ : ∃ m, n = m + 1 := ⟨n - 1, by omega⟩
  cases h with
  | null =>
    rw [scan_lexeme .literal_null (by simp) (by simp [TokenType.isNumber])]
    rfl
  | true =>
    rw [scan_lexeme .literal_true (by simp) (by simp [TokenType.isNumber])]
    rfl
  | false =>
    rw [scan_lexeme .literal_false (by simp) (by simp [TokenType.isNumber])]
    rfl
  | string hcs =>
    rw [scan_quoted, parse_internal_string rfl, string_of_spells hcs]
    rfl
  | number x =>
    have hx : x.tokenType ≠ .parse_error ∧ x.tokenType.isNumber = .true := by
      unfold NumberText.tokenType
      split_ifs <;> exact ⟨by decide, rfl⟩
    rw [scan_lexeme (.number x) hx.1 fun _ => hrest, parse_internal_number hx.2,
      get_number_text libc (ends_of_numberChar hrest)]
    rfl
  | emptyArray hw =>
    have hclose := scan_ws_structural hw (show structural 93 = some .end_array from rfl) rest
    rw [List.cons_append, List.append_assoc, List.singleton_append,
      scan_structural (show structural 91 = some .begin_array from rfl),
      parse_internal_array rfl, Lexer.get_token, hclose, if_pos rfl]
    rfl
  | @array e w js he hw =>
    have hclose := scan_ws_structural hw (show structural 93 = some .end_array from rfl) rest
    have hfollow : Follow (w ++ 93 :: rest) := follow_ws hw rfl rest
    have hend := he.last_token_ne (w ++ 93 :: rest) (show structural 93 = some .end_array from rfl)
      (by decide)
    have hsep := he.last_token_ne (w ++ 93 :: rest)
      (show structural 44 = some .value_separator from rfl) (by decide)
    simp only [List.length_cons, List.length_append] at hn
    have hloop : parse_elements libc n [] (scan (e ++ (w ++ 93 :: rest))) =
        .ok ([] ++ js, scan (w ++ 93 :: rest)) :=
      he.parse hfollow (by simp [hclose]) (by omega) (skipSeparator_of_ne hsep)
    rw [List.cons_append, List.append_assoc, List.append_assoc, List.singleton_append,
      scan_structural (show structural 91 = some .begin_array from rfl),
      parse_internal_array rfl, Lexer.get_token, if_neg hend, unexpect_of_ne hsep, hloop, hclose]
    rfl
  | emptyObject hw =>
    have hclose := scan_ws_structural hw (show structural 125 = some .end_object from rfl) rest
    rw [List.cons_append, List.append_assoc, List.singleton_append,
      scan_structural (show structural 123 = some .begin_object from rfl),
      parse_internal_object rfl, Lexer.get_token, hclose, if_pos rfl]
    rfl
  | @object m w ms hm hw =>
    have hclose := scan_ws_structural hw (show structural 125 = some .end_object from rfl) rest
    have hfollow : Follow (w ++ 125 :: rest) := follow_ws hw rfl rest
    have hstring := hm.last_token (w ++ 125 :: rest)
    have hsep : (scan (m ++ (w ++ 125 :: rest))).last_token ≠ .value_separator := by
      rw [hstring]
      decide
    simp only [List.length_cons, List.length_append] at hn
    have hloop : parse_members libc n [] (scan (m ++ (w ++ 125 :: rest))) =
        .ok (Map.ofEntries ms, scan (w ++ 125 :: rest)) :=
      hm.parse hfollow (by simp [hclose]) (by omega) (skipSeparator_of_ne hsep)
    rw [List.cons_append, List.append_assoc, List.append_assoc, List.singleton_append,
      scan_structural (show structural 123 = some .begin_object from rfl),
      parse_internal_object rfl, Lexer.get_token, if_neg (by rw [hstring]; decide),
      unexpect_of_ne hsep, hloop, hclose]
    rfl

theorem Elements.parse {e : Bytes} {js : List Json} (h : Elements libc e js) {rest : Bytes}
    {n : ℕ} {acc : List Json} {lx : Lexer} (hrest : Follow rest)
    (hsep : (scan rest).last_token ≠ .value_separator) (hn : 2 * e.length + 2 ≤ n)
    (hlx : lx.skipSeparator = scan (e ++ rest)) :
    parse_elements libc n acc lx = .ok (acc ++ js, scan rest) := by
  obtain ⟨n, rfl⟩ : ∃ m, n = m + 1 := ⟨n - 1, by omega⟩
  cases h with
  | @last w u j hw hu =>
    rw [List.length_append] at hn
    have hvalue : parse_internal libc n (scan (u ++ rest)) = .ok (some j, scan rest) :=
      hu.parse hrest (by omega)
    rw [List.append_assoc, scan_append hw] at hlx
    rw [parse_elements_succ, hlx, hvalue]
    exact if_neg hsep
  | @cons w u w' e j js hw hu hw' he =>
    simp only [List.length_append, List.length_cons] at hn
    have hcomma := scan_ws_structural hw' (show structural 44 = some .value_separator from rfl)
      (e ++ rest)
    have hvalue : parse_internal libc n (scan (u ++ (w' ++ 44 :: (e ++ rest)))) =
        .ok (some j, scan (w' ++ 44 :: (e ++ rest))) :=
      hu.parse (follow_ws hw' rfl _) (by omega)
    have hloop : parse_elements libc n (acc ++ [j]) ⟨.value_separator, [44], e ++ rest⟩ =
        .ok (acc ++ [j] ++ js, scan rest) :=
      he.parse hrest hsep (by omega) (skipSeparator_comma _)
    simp only [List.append_assoc, List.cons_append, scan_append hw] at hlx
    rw [parse_elements_succ, hlx, hvalue, hcomma]
    simpa [pushBack] using hloop

theorem Members.parse {m : Bytes} {ms : List (Bytes × Json)} (h : Members libc m ms)
    {rest : Bytes} {n : ℕ} {acc : List (Bytes × Json)} {lx : Lexer} (hrest : Follow rest)
    (hsep : (scan rest).last_token ≠ .value_separator) (hn : 2 * m.length + 2 ≤ n)
    (hlx : lx.skipSeparator = scan (m ++ rest)) :
    parse_members libc n acc lx =
      .ok (ms.foldl (fun acc e => Map.insert e.1 e.2 acc) acc, scan rest) := by
  obtain ⟨n, rfl⟩ : ∃ m, n = m + 1 := ⟨n - 1, by omega⟩
  cases h with
  | @last w w₁ w₂ u cs k j hw hk hw₁ hw₂ hu =>
    simp only [List.length_append, List.length_cons] at hn
    have hvalue : parse_internal libc n (scan (u ++ rest)) = .ok (some j, scan rest) :=
      hu.parse hrest (by omega)
    simp only [List.append_assoc, List.cons_append, scan_append hw, scan_quoted] at hlx
    have hname := scan_ws_structural hw₁ (show structural 58 = some .name_separator from rfl)
      (w₂ ++ (u ++ rest))
    rw [parse_members_succ, hlx, string_of_spells hk]
    simp only [Lexer.get_token, hname, scan_append hw₂, hvalue]
    exact if_neg hsep
  | @cons w w₁ w₂ u w₃ m cs k j ms hw hk hw₁ hw₂ hu hw₃ hm =>
    simp only [List.length_append, List.length_cons] at hn
    have hcomma := scan_ws_structural hw₃ (show structural 44 = some .value_separator from rfl)
      (m ++ rest)
    have hvalue : parse_internal libc n (scan (u ++ (w₃ ++ 44 :: (m ++ rest)))) =
        .ok (some j, scan (w₃ ++ 44 :: (m ++ rest))) :=
      hu.parse (follow_ws hw₃ rfl _) (by omega)
    have hloop : parse_members libc n (Map.insert (encode k) j acc)
        ⟨.value_separator, [44], m ++ rest⟩ =
          .ok (ms.foldl (fun acc e => Map.insert e.1 e.2 acc) (Map.insert (encode k) j acc),
            scan rest) :=
      hm.parse hrest hsep (by omega) (skipSeparator_comma _)
    simp only [List.append_assoc, List.cons_append, scan_append hw, scan_quoted] at hlx
    have hname := scan_ws_structural hw₁ (show structural 58 = some .name_separator from rfl)
      (w₂ ++ (u ++ (w₃ ++ 44 :: (m ++ rest))))
    rw [parse_members_succ, hlx, string_of_spells hk]
    simp only [Lexer.get_token, hname, scan_append hw₂, hvalue, hcomma]
    exact hloop

end

/-- The parser accepts every text of the grammar, with its value. -/
theorem parse_of_document {s : Bytes} {j : Json} (h : Document libc s j) (t : Bytes) :
    parse_internal libc (2 * (s ++ 0 :: t).length + 1) (scan (s ++ 0 :: t)) =
      .ok (some j, ⟨.end_of_input, [0], t⟩) := by
  obtain ⟨w, u, w', rfl, hw, hu, hw'⟩ := h
  rw [List.append_assoc, scan_append hw, List.append_assoc,
    hu.parse (follow_ws hw' rfl t) (by simp only [List.length_append]; omega),
    scan_ws_structural hw' (show structural 0 = some .end_of_input from rfl)]

end Completeness

end Gpd.Jsonparser
