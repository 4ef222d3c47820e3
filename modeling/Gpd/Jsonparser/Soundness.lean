import Gpd.Jsonparser.Grammar

/-! What the parser accepts is a text of the grammar, and its result the value of the text. -/
namespace Gpd.Jsonparser
open Text Cxx

lemma last_token_of_expect {lx : Lexer} {t : TokenType} {i : Unit} (h : lx.expect t = .ok i) :
    lx.last_token = t := by
  rw [Lexer.expect] at h
  split_ifs at h with hne
  exact (not_not.mp hne).symm

lemma ne_of_unexpect {lx : Lexer} {t : TokenType} {i : Unit} (h : lx.unexpect t = .ok i) :
    lx.last_token ≠ t := by
  rw [Lexer.unexpect] at h
  split_ifs at h with heq
  exact fun ht => heq ht.symm

lemma Lexer.eta (lx : Lexer) : lx = ⟨lx.last_token, lx.token, lx.rest⟩ := rfl

lemma scan_spec {r : Bytes} (h : (scan r).last_token ≠ .end_of_input) :
    ∃ w, Ws w ∧ r = w ++ ((scan r).token ++ (scan r).rest) ∧
      Lexeme (scan r).last_token (scan r).token ∧ Maximal (scan r).token (scan r).rest := by
  have hs : ∃ b ∈ r, isWs b = false := by
    by_contra hall
    push Not at hall
    have hscan := scan_append (w := r) (fun b hb => by simpa using hall b hb) []
    rw [List.append_nil] at hscan
    exact h (by rw [hscan]; rfl)
  obtain ⟨w, hw, hr, hlex, hmax, -⟩ :=
    (scan_eq_iff hs).mp (Lexer.eta (scan r))
  exact ⟨w, hw, hr, hlex, hmax⟩

lemma lexeme_word {t : TokenType} {u : Bytes} (h : Lexeme t u) :
    (t = .literal_null → u = ascii "null") ∧ (t = .literal_true → u = ascii "true") ∧
      (t = .literal_false → u = ascii "false") ∧
      (t = .value_string → ∃ cs, u = quoted (stringText cs)) := by
  cases h with
  | structural hst =>
    unfold structural at hst
    split_ifs at hst <;> obtain rfl := Option.some.inj hst <;> simp
  | literal_null => simp
  | literal_true => simp
  | literal_false => simp
  | string cs => exact ⟨by simp, by simp, by simp, fun _ => ⟨cs, rfl⟩⟩
  | number n =>
    unfold NumberText.tokenType
    split_ifs <;> simp
  | invalidInt => simp
  | other => simp

lemma exists_number {t : TokenType} {u : Bytes} (h : Lexeme t u) (ht : t.isNumber = true) :
    ∃ n : NumberText, n.tokenType = t ∧ n.text = u := by
  cases h with
  | number n => exact ⟨n, rfl, rfl⟩
  | structural hst => simp [(ne_parse_error_of_structural hst).2] at ht
  | literal_null => cases ht
  | literal_true => cases ht
  | literal_false => cases ht
  | string => cases ht
  | invalidInt => cases ht
  | other => cases ht

def TokenType.char : TokenType → UInt8
  | .begin_array => 91
  | .end_array => 93
  | .begin_object => 123
  | .end_object => 125
  | .value_separator => 44
  | .name_separator => 58
  | _ => 0

lemma eq_char_of_structural {b : UInt8} {t : TokenType} (h : structural b = some t) :
    b = t.char := by
  unfold structural at h
  split_ifs at h <;> obtain rfl := Option.some.inj h <;> assumption

lemma scan_structural_spec {r : Bytes} {t : TokenType} {b : UInt8} (h : (scan r).last_token = t)
    (hb : structural b = some t) (ht : t ≠ .end_of_input) :
    ∃ w, Ws w ∧ r = w ++ b :: (scan r).rest := by
  obtain ⟨w, hw, hr, hlex, -⟩ := scan_spec (h ▸ ht)
  rw [h] at hlex
  obtain ⟨c, hc, hst⟩ := lexeme_structural hlex hb
  rw [hc, eq_char_of_structural hst, ← eq_char_of_structural hb] at hr
  exact ⟨w, hw, hr⟩

lemma scan_point (s : Bytes) : (scan (46 :: s)).last_token = .parse_error := by
  have hstart : byClass .start 46 = some .l4 := rfl
  have hm : automaton.munch ([46] ++ s) .start none = some (.emit .parse_error, s) := by
    have hrun : automaton.run .start [46] = some .l4 := by
      rw [Scanner.run_cons]
      exact Option.bind_eq_some_iff.mpr ⟨.l4, (next_eq_byClass .start 46).trans hstart, rfl⟩
    exact Scanner.munch_append hrun rfl fun b _ => (next_eq_byClass .l4 b).trans rfl
  rw [List.singleton_append] at hm
  rw [scan_of_munch hm]

section Soundness

variable (libc : Libc)

/-- What `parse_internal` accepts with `n` rounds. -/
def SoundValue (n : ℕ) : Prop :=
  ∀ r o lx', parse_internal libc n (scan r) = .ok (o, lx') → lx'.last_token ≠ .parse_error →
    ∃ w u j r', Ws w ∧ r = w ++ (u ++ r') ∧ Value libc u j ∧ o = some j ∧ lx' = scan r'

def SoundElements (n : ℕ) : Prop :=
  ∀ r lx acc js' lx', lx.skipSeparator = scan r →
    parse_elements libc n acc lx = .ok (js', lx') → lx'.last_token ≠ .parse_error →
      ∃ e js r', r = e ++ r' ∧ Elements libc e js ∧ js' = acc ++ js ∧ lx' = scan r'

def SoundMembers (n : ℕ) : Prop :=
  ∀ r lx acc ms' lx', lx.skipSeparator = scan r →
    parse_members libc n acc lx = .ok (ms', lx') → lx'.last_token ≠ .parse_error →
      ∃ m ms r', r = m ++ r' ∧ Members libc m ms ∧
        ms' = ms.foldl (fun acc e => Map.insert e.1 e.2 acc) acc ∧ lx' = scan r'

variable {libc}

lemma skipSeparator_scan {r : Bytes} (h : (scan r).last_token = .value_separator) :
    ∃ w r', Ws w ∧ r = w ++ 44 :: r' ∧ (scan r).skipSeparator = scan r' := by
  obtain ⟨w, hw, hr⟩ := scan_structural_spec h (show structural 44 = some .value_separator from rfl)
    (by decide)
  exact ⟨w, (scan r).rest, hw, hr, if_pos h⟩

lemma soundElements_succ {n : ℕ} (hv : SoundValue libc n) (he : SoundElements libc n) :
    SoundElements libc (n + 1) := by
  intro r lx acc js' lx' hlx h herr
  rw [parse_elements_succ, hlx] at h
  obtain ⟨⟨o, lx₁⟩, hvalue, h⟩ := Machine.bind_eq_ok.mp h
  dsimp only at h
  split_ifs at h with hsep
  · obtain ⟨w, u, j, r₁, hw, rfl, hu, rfl, rfl⟩ := hv r o lx₁ hvalue (by simp [hsep])
    obtain ⟨w', r₂, hw', rfl, hskip⟩ := skipSeparator_scan hsep
    obtain ⟨e, js, r', rfl, helements, rfl, rfl⟩ := he r₂ _ _ _ _ hskip h herr
    refine ⟨w ++ (u ++ (w' ++ 44 :: e)), j :: js, r', by simp, .cons hw hu hw' helements, ?_, rfl⟩
    simp [pushBack]
  · obtain ⟨rfl, rfl⟩ := Prod.mk.inj (Except.ok.inj h)
    obtain ⟨w, u, j, r', hw, rfl, hu, rfl, rfl⟩ := hv r o _ hvalue herr
    exact ⟨w ++ u, [j], r', by simp, .last hw hu, rfl, rfl⟩

lemma exists_string {r s : Bytes} (ht : (scan r).last_token = .value_string)
    (hs : (scan r).string = .ok s) :
    ∃ w cs k, Ws w ∧ Spells cs k ∧ s = encode k ∧
      r = w ++ (quoted (stringText cs) ++ (scan r).rest) := by
  obtain ⟨w, hw, hr, hlex, -⟩ := scan_spec (r := r) (by simp [ht])
  obtain ⟨cs, hcs⟩ := (lexeme_word hlex).2.2.2 ht
  rw [hcs] at hr
  rw [Lexer.string, Lexer.get_string, hcs] at hs
  cases hget : getString (quoted (stringText cs)).tail.dropLast with
  | error e => simp [hget] at hs
  | ok s' =>
    rw [hget] at hs
    obtain rfl := Except.ok.inj hs
    rw [show (quoted (stringText cs)).tail.dropLast = stringText cs by simp [quoted]] at hget
    obtain ⟨k, hk, rfl⟩ := spells_of_getString hget
    exact ⟨w, cs, k, hw, hk, rfl, hr⟩

lemma exists_key {r : Bytes} {i₁ i₂ : Unit} {key : Bytes}
    (hstring : (scan r).expect .value_string = .ok i₁) (hkey : (scan r).string = .ok key)
    (hname : (scan r).get_token.expect .name_separator = .ok i₂) :
    ∃ w cs k w₁ r', Ws w ∧ Spells cs k ∧ Ws w₁ ∧ key = encode k ∧
      r = w ++ (quoted (stringText cs) ++ (w₁ ++ 58 :: r')) ∧
      (scan r).get_token.get_token = scan r' := by
  obtain ⟨w, cs, k, hw, hk, rfl, hr⟩ := exists_string (last_token_of_expect hstring) hkey
  obtain ⟨w₁, hw₁, hr₁⟩ := scan_structural_spec (last_token_of_expect hname)
    (show structural 58 = some .name_separator from rfl) (by decide)
  have hrest : (scan r).rest = w₁ ++ 58 :: (scan (scan r).rest).rest := hr₁
  exact ⟨w, cs, k, w₁, (scan (scan r).rest).rest, hw, hk, hw₁, rfl, by rw [← hrest]; exact hr, rfl⟩

lemma soundMembers_succ {n : ℕ} (hv : SoundValue libc n) (hm : SoundMembers libc n) :
    SoundMembers libc (n + 1) := by
  intro r lx acc ms' lx' hlx h herr
  rw [parse_members_succ, hlx] at h
  obtain ⟨i₁, hstring, h⟩ := Machine.bind_eq_ok.mp h
  obtain ⟨key, hkey, h⟩ := Machine.bind_eq_ok.mp h
  obtain ⟨i₂, hname, h⟩ := Machine.bind_eq_ok.mp h
  obtain ⟨w, cs, k, w₁, r₀, hw, hk, hw₁, rfl, hr, hget⟩ := exists_key hstring hkey hname
  rw [hget] at h
  obtain ⟨⟨o, lx₁⟩, hvalue, h⟩ := Machine.bind_eq_ok.mp h
  dsimp only at h
  split_ifs at h with hsep
  · obtain ⟨w₂, u, j, r₁, hw₂, rfl, hu, rfl, rfl⟩ := hv r₀ o lx₁ hvalue (by simp [hsep])
    obtain ⟨w₃, r₂, hw₃, rfl, hskip⟩ := skipSeparator_scan hsep
    obtain ⟨m, ms, r', rfl, hmembers, rfl, rfl⟩ := hm r₂ _ _ _ _ hskip h herr
    exact ⟨_, (encode k, j) :: ms, r', by simpa using hr, .cons hw hk hw₁ hw₂ hu hw₃ hmembers, rfl,
      rfl⟩
  · obtain ⟨rfl, rfl⟩ := Prod.mk.inj (Except.ok.inj h)
    obtain ⟨w₂, u, j, r', hw₂, rfl, hu, rfl, rfl⟩ := hv r₀ o _ hvalue herr
    exact ⟨_, [(encode k, j)], r', by simpa using hr, .last hw hk hw₁ hw₂ hu, rfl, rfl⟩

lemma sound_number {n : ℕ} {r : Bytes} {o : Option Json} {lx' : Lexer}
    (ht : (scan r).last_token.isNumber = true)
    (h : parse_internal libc (n + 1) (scan r) = .ok (o, lx'))
    (herr : lx'.last_token ≠ .parse_error) :
    ∃ w u j r', Ws w ∧ r = w ++ (u ++ r') ∧ Value libc u j ∧ o = some j ∧ lx' = scan r' := by
  have hne : (scan r).last_token ≠ .end_of_input := by
    intro heq
    rw [heq] at ht
    cases ht
  obtain ⟨w, hw, hr, hlex, hmax⟩ := scan_spec hne
  obtain ⟨x, hx, htext⟩ := exists_number hlex ht
  rw [parse_internal_number ht] at h
  obtain ⟨rfl, rfl⟩ := Prod.mk.inj (Except.ok.inj h)
  have hlx : scan r = ⟨x.tokenType, x.text, (scan r).rest⟩ := by rw [hx, htext]
  rw [← htext] at hr hmax
  rcases get_number_maximal libc hmax with hvalue | ⟨s, hs⟩
  · exact ⟨w, x.text, x.value libc, (scan r).rest, hw, hr, .number x, hlx ▸ hvalue, rfl⟩
  · exact absurd (by rw [Lexer.get_token, hs]; exact scan_point s) herr

lemma soundValue_succ {n : ℕ} (he : SoundElements libc n) (hm : SoundMembers libc n) :
    SoundValue libc (n + 1) := by
  intro r o lx' h herr
  have hspec := scan_spec (r := r)
  cases ht : (scan r).last_token
  case literal_null =>
    obtain ⟨w, hw, hr, hlex, -⟩ := hspec (by simp [ht])
    rw [(lexeme_word hlex).1 ht] at hr
    rw [parse_internal, ht] at h
    obtain ⟨rfl, rfl⟩ := Prod.mk.inj (Except.ok.inj h)
    exact ⟨w, _, _, _, hw, hr, .null, rfl, rfl⟩
  case literal_true =>
    obtain ⟨w, hw, hr, hlex, -⟩ := hspec (by simp [ht])
    rw [(lexeme_word hlex).2.1 ht] at hr
    rw [parse_internal, ht] at h
    obtain ⟨rfl, rfl⟩ := Prod.mk.inj (Except.ok.inj h)
    exact ⟨w, _, _, _, hw, hr, .true, rfl, rfl⟩
  case literal_false =>
    obtain ⟨w, hw, hr, hlex, -⟩ := hspec (by simp [ht])
    rw [(lexeme_word hlex).2.2.1 ht] at hr
    rw [parse_internal, ht] at h
    obtain ⟨rfl, rfl⟩ := Prod.mk.inj (Except.ok.inj h)
    exact ⟨w, _, _, _, hw, hr, .false, rfl, rfl⟩
  case value_string =>
    rw [parse_internal_string ht] at h
    obtain ⟨s, hs, h⟩ := Machine.bind_eq_ok.mp h
    obtain ⟨rfl, rfl⟩ := Prod.mk.inj (Except.ok.inj h)
    obtain ⟨w, cs, k, hw, hk, rfl, hr⟩ := exists_string ht hs
    exact ⟨w, _, _, _, hw, hr, .string hk, rfl, rfl⟩
  case value_unsigned => exact sound_number (by simp [ht, TokenType.isNumber]) h herr
  case value_integer => exact sound_number (by simp [ht, TokenType.isNumber]) h herr
  case value_float => exact sound_number (by simp [ht, TokenType.isNumber]) h herr
  case begin_array =>
    obtain ⟨w, hw, hr⟩ := scan_structural_spec ht
      (show structural 91 = some .begin_array from rfl) (by decide)
    rw [parse_internal_array ht] at h
    split_ifs at h with hend
    · obtain ⟨w₁, hw₁, hr₁⟩ := scan_structural_spec hend
        (show structural 93 = some .end_array from rfl) (by decide)
      obtain ⟨rfl, rfl⟩ := Prod.mk.inj (Except.ok.inj h)
      rw [show (scan r).rest = w₁ ++ 93 :: (scan (scan r).rest).rest from hr₁] at hr
      exact ⟨w, _, _, (scan (scan r).rest).rest, hw, by simpa using hr, .emptyArray hw₁, rfl, rfl⟩
    · obtain ⟨i₁, hsep, h⟩ := Machine.bind_eq_ok.mp h
      obtain ⟨⟨vs, lx₁⟩, hloop, h⟩ := Machine.bind_eq_ok.mp h
      obtain ⟨i₂, hclose, h⟩ := Machine.bind_eq_ok.mp h
      obtain ⟨rfl, rfl⟩ := Prod.mk.inj (Except.ok.inj h)
      have hend : lx₁.last_token = .end_array := last_token_of_expect hclose
      have hskip : (scan r).get_token.skipSeparator = scan (scan r).rest :=
        skipSeparator_of_ne (ne_of_unexpect hsep)
      obtain ⟨e, vs, r₁, hr₁, he, rfl, hlx₁⟩ := he _ _ _ _ _ hskip hloop
        (by rw [hend]; decide)
      subst hlx₁
      obtain ⟨w₁, hw₁, hr₂⟩ := scan_structural_spec hend
        (show structural 93 = some .end_array from rfl) (by decide)
      rw [hr₁, hr₂] at hr
      exact ⟨w, _, _, (scan r₁).rest, hw, by simpa using hr, .array he hw₁, rfl, rfl⟩
  case begin_object =>
    obtain ⟨w, hw, hr⟩ := scan_structural_spec ht
      (show structural 123 = some .begin_object from rfl) (by decide)
    rw [parse_internal_object ht] at h
    split_ifs at h with hend
    · obtain ⟨w₁, hw₁, hr₁⟩ := scan_structural_spec hend
        (show structural 125 = some .end_object from rfl) (by decide)
      obtain ⟨rfl, rfl⟩ := Prod.mk.inj (Except.ok.inj h)
      rw [show (scan r).rest = w₁ ++ 125 :: (scan (scan r).rest).rest from hr₁] at hr
      exact ⟨w, _, _, (scan (scan r).rest).rest, hw, by simpa using hr, .emptyObject hw₁, rfl, rfl⟩
    · obtain ⟨i₁, hsep, h⟩ := Machine.bind_eq_ok.mp h
      obtain ⟨⟨vs, lx₁⟩, hloop, h⟩ := Machine.bind_eq_ok.mp h
      obtain ⟨i₂, hclose, h⟩ := Machine.bind_eq_ok.mp h
      obtain ⟨rfl, rfl⟩ := Prod.mk.inj (Except.ok.inj h)
      have hend : lx₁.last_token = .end_object := last_token_of_expect hclose
      have hskip : (scan r).get_token.skipSeparator = scan (scan r).rest :=
        skipSeparator_of_ne (ne_of_unexpect hsep)
      obtain ⟨e, vs, r₁, hr₁, he, rfl, hlx₁⟩ := hm _ _ _ _ _ hskip hloop
        (by rw [hend]; decide)
      subst hlx₁
      obtain ⟨w₁, hw₁, hr₂⟩ := scan_structural_spec hend
        (show structural 125 = some .end_object from rfl) (by decide)
      rw [hr₁, hr₂] at hr
      exact ⟨w, _, _, (scan r₁).rest, hw, by simpa using hr, .object he hw₁, rfl, rfl⟩
  all_goals
    rw [parse_internal, ht] at h
    cases h

theorem sound (n : ℕ) : SoundValue libc n ∧ SoundElements libc n ∧ SoundMembers libc n := by
  induction n with
  | zero =>
    refine ⟨fun r o lx' h => ?_, fun r lx acc js' lx' _ h => ?_, fun r lx acc ms' lx' _ h => ?_⟩
    · rw [parse_internal] at h
      cases h
    · rw [parse_elements] at h
      cases h
    · rw [parse_members] at h
      cases h
  | succ n ih =>
    obtain ⟨hv, he, hm⟩ := ih
    exact ⟨soundValue_succ he hm, soundElements_succ hv he, soundMembers_succ hv hm⟩

end Soundness

end Gpd.Jsonparser
