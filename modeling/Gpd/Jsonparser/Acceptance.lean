import Gpd.Jsonparser.Soundness

/-! The texts that `parse` accepts: one value between white space, up to the first null byte.
On all others it throws. -/
namespace Gpd.Jsonparser
open Text Cxx

section Zero

/-- Without a null byte. -/
def ZeroFree (s : Bytes) : Prop := ∀ b ∈ s, b ≠ 0

lemma zeroFree_append {s t : Bytes} : ZeroFree (s ++ t) ↔ ZeroFree s ∧ ZeroFree t := by
  simp [ZeroFree, or_imp, forall_and]

lemma zeroFree_cons {b : UInt8} {s : Bytes} : ZeroFree (b :: s) ↔ b ≠ 0 ∧ ZeroFree s := by
  simp [ZeroFree]

lemma zeroFree_nil : ZeroFree [] := by simp [ZeroFree]

lemma zeroFree_words :
    ZeroFree (ascii "null") ∧ ZeroFree (ascii "true") ∧ ZeroFree (ascii "false") := by
  refine ⟨?_, ?_, ?_⟩
  · show ZeroFree [110, 117, 108, 108]
    simp [ZeroFree]
  · show ZeroFree [116, 114, 117, 101]
    simp [ZeroFree]
  · show ZeroFree [102, 97, 108, 115, 101]
    simp [ZeroFree]

lemma zeroFree_ws {w : Bytes} (h : Ws w) : ZeroFree w := by
  rintro b hb rfl
  cases h 0 hb

lemma zeroFree_digits {ds : Bytes} (h : ∀ b ∈ ds, isDigit b = true) : ZeroFree ds := by
  rintro b hb rfl
  cases h 0 hb

lemma zeroFree_number (n : NumberText) : ZeroFree n.text := by
  have hminus : ZeroFree (minusText n.minus) := by
    cases n.minus <;> simp [minusText, ZeroFree]
  have hfrac : ZeroFree (fracText n.frac) := by
    cases n.frac with
    | none => exact zeroFree_nil
    | some ds => exact zeroFree_cons.mpr ⟨by decide, zeroFree_digits ds.digits⟩
  have hexp : ZeroFree (expText n.exp) := by
    cases n.exp with
    | none => exact zeroFree_nil
    | some x =>
      have hsign : ZeroFree x.sign := by
        rcases x.sign_ok with hs | hs | hs <;> simp [hs, ZeroFree]
      refine zeroFree_cons.mpr ⟨?_, zeroFree_append.mpr ⟨hsign, zeroFree_digits x.digits.digits⟩⟩
      rcases x.e_ok with he | he <;> simp [he]
  exact zeroFree_append.mpr ⟨hminus, zeroFree_append.mpr ⟨zeroFree_digits n.int_ok.digits,
    zeroFree_append.mpr ⟨hfrac, hexp⟩⟩⟩

lemma zeroFree_stringChar (c : StringChar) : ZeroFree c.text := by
  cases c with
  | unescaped c h =>
    rw [StringChar.text]
    by_cases hc : c.toNat < 0x80
    · rw [encodeChar_of_lt hc]
      intro b hb
      obtain rfl := List.mem_singleton.mp hb
      rw [Ne, ← UInt8.toNat_inj, toNat_ofNat_byte (by omega)]
      have hlow := h.1
      simp only [UInt8.toNat_zero]
      omega
    · rintro b hb rfl
      have hle := (utf8_encodeChar c).le_of_mem (length_encodeChar_of_le (by omega)) 0 hb
      simp at hle
  | single b h =>
    refine zeroFree_cons.mpr ⟨by decide, zeroFree_cons.mpr ⟨?_, zeroFree_nil⟩⟩
    rintro rfl
    cases h
  | unicode x =>
    have hx := x.hex
    have hne {d : UInt8} (hd : isHex d = true) : d ≠ 0 := by
      rintro rfl
      cases hd
    simp only [Bool.and_eq_true] at hx
    simp [StringChar.text, Hex4.text, ZeroFree, hne hx.1.1.1, hne hx.1.1.2, hne hx.1.2, hne hx.2]

lemma zeroFree_quoted (cs : List StringChar) : ZeroFree (quoted (stringText cs)) := by
  have hcs : ZeroFree (stringText cs) := by
    intro b hb
    obtain ⟨c, -, hc⟩ := List.mem_flatMap.mp hb
    exact zeroFree_stringChar c b hc
  exact zeroFree_cons.mpr ⟨by decide, zeroFree_append.mpr ⟨hcs, zeroFree_cons.mpr
    ⟨by decide, zeroFree_nil⟩⟩⟩

variable {libc : Libc}

mutual

theorem Value.zeroFree {u : Bytes} {j : Json} (h : Value libc u j) : ZeroFree u := by
  cases h with
  | null => exact zeroFree_words.1
  | true => exact zeroFree_words.2.1
  | false => exact zeroFree_words.2.2
  | string _ => exact zeroFree_quoted _
  | number n => exact zeroFree_number n
  | emptyArray hw => simp [zeroFree_cons, zeroFree_append, zeroFree_ws hw, zeroFree_nil]
  | @array e w js he hw =>
    have hzero := he.zeroFree
    simp [zeroFree_cons, zeroFree_append, zeroFree_ws hw, zeroFree_nil, hzero]
  | emptyObject hw => simp [zeroFree_cons, zeroFree_append, zeroFree_ws hw, zeroFree_nil]
  | @object m w ms hm hw =>
    have hzero := hm.zeroFree
    simp [zeroFree_cons, zeroFree_append, zeroFree_ws hw, zeroFree_nil, hzero]
termination_by 2 * u.length
decreasing_by all_goals simp only [List.length_cons, List.length_append]; omega

theorem Elements.zeroFree {e : Bytes} {js : List Json} (h : Elements libc e js) : ZeroFree e := by
  cases h with
  | @last w u j hw hu =>
    have hvalue := hu.zeroFree
    simp [zeroFree_append, zeroFree_ws hw, hvalue]
  | @cons w u w' e j js hw hu hw' he =>
    have hvalue := hu.zeroFree
    have hrest := he.zeroFree
    simp [zeroFree_append, zeroFree_cons, zeroFree_ws hw, zeroFree_ws hw', hvalue, hrest]
termination_by 2 * e.length + 1
decreasing_by all_goals simp only [List.length_cons, List.length_append]; omega

theorem Members.zeroFree {m : Bytes} {ms : List (Bytes × Json)} (h : Members libc m ms) :
    ZeroFree m := by
  cases h with
  | @last w w₁ w₂ u cs k j hw hk hw₁ hw₂ hu =>
    have hvalue := hu.zeroFree
    simp [zeroFree_append, zeroFree_cons, zeroFree_quoted, zeroFree_ws hw, zeroFree_ws hw₁,
      zeroFree_ws hw₂, hvalue]
  | @cons w w₁ w₂ u w₃ m cs k j ms hw hk hw₁ hw₂ hu hw₃ hm =>
    have hvalue := hu.zeroFree
    have hrest := hm.zeroFree
    simp [zeroFree_append, zeroFree_cons, zeroFree_quoted, zeroFree_ws hw, zeroFree_ws hw₁,
      zeroFree_ws hw₂, zeroFree_ws hw₃, hvalue, hrest]
termination_by 2 * m.length + 1
decreasing_by all_goals simp only [List.length_cons, List.length_append]; omega

end

lemma Document.zeroFree {s : Bytes} {j : Json} (h : Document libc s j) : ZeroFree s := by
  obtain ⟨w, u, w', rfl, hw, hu, hw'⟩ := h
  simp [zeroFree_append, zeroFree_ws hw, zeroFree_ws hw', hu.zeroFree]

end Zero

section Acceptance

variable {libc : Libc}

/-- What the scanner can see of a text. -/
def visible (s : Bytes) : Bytes := s.takeWhile (· ≠ 0)

lemma zeroFree_visible (s : Bytes) : ZeroFree (visible s) := by
  intro b hb
  simpa using List.mem_takeWhile_imp hb

lemma visible_append {s : Bytes} (h : ZeroFree s) (t : Bytes) : visible (s ++ 0 :: t) = s := by
  rw [visible, List.takeWhile_append_of_pos (by simpa [ZeroFree] using h)]
  simp

lemma visible_buffer (s : Bytes) : ∃ t, buffer s = visible s ++ 0 :: t := by
  induction s with
  | nil => exact ⟨[], rfl⟩
  | cons b s ih =>
    by_cases hb : b = 0
    · subst hb
      exact ⟨buffer s, rfl⟩
    · obtain ⟨t, ht⟩ := ih
      have hvisible : visible (b :: s) = b :: visible s := by simp [visible, hb]
      exact ⟨t, by rw [hvisible, List.cons_append, ← ht, buffer, buffer, List.cons_append]⟩

lemma visible_eq_of_buffer {s u t : Bytes} (h : buffer s = u ++ 0 :: t) (hu : ZeroFree u) :
    visible s = u := by
  obtain ⟨t', ht'⟩ := visible_buffer s
  calc visible s = visible (buffer s) := by rw [ht', visible_append (zeroFree_visible s)]
    _ = u := by rw [h, visible_append hu]

lemma scan_end_spec {r : Bytes} (h : (scan r).last_token = .end_of_input) (hzero : 0 ∈ r) :
    ∃ w, Ws w ∧ r = w ++ 0 :: (scan r).rest := by
  obtain ⟨w, hw, hr, hlex, -⟩ :=
    (scan_eq_iff ⟨0, hzero, rfl⟩).mp (Lexer.eta (scan r))
  rw [h] at hlex
  obtain ⟨c, hc, hst⟩ := lexeme_structural hlex (show structural 0 = some .end_of_input from rfl)
  obtain rfl : c = 0 := eq_char_of_structural hst
  rw [hc] at hr
  exact ⟨w, hw, hr⟩

lemma parse_of_visible {s : Bytes} {j : Json} (h : Document libc (visible s) j) :
    parse libc s = .ok j := by
  obtain ⟨t, ht⟩ := visible_buffer s
  rw [parse, ht, parse_of_document h t]
  rfl

lemma visible_of_parse {s : Bytes} {j : Json} (h : parse libc s = .ok j) :
    Document libc (visible s) j := by
  obtain ⟨⟨o, lx⟩, hvalue, h⟩ := Machine.bind_eq_ok.mp h
  obtain ⟨i, hend, hj⟩ := Machine.bind_eq_ok.mp h
  have hend : lx.last_token = .end_of_input := last_token_of_expect hend
  obtain ⟨w, u, j', r, hw, hs, hu, rfl, rfl⟩ :=
    (sound _).1 (buffer s) o lx hvalue (by rw [hend]; decide)
  obtain rfl : j' = j := Except.ok.inj hj
  have hzero : 0 ∈ r := by
    have hmem : (0 : UInt8) ∈ w ++ (u ++ r) := hs ▸ by simp [buffer]
    rcases List.mem_append.mp hmem with hmem | hmem
    · exact absurd rfl (zeroFree_ws hw 0 hmem)
    · rcases List.mem_append.mp hmem with hmem | hmem
      · exact absurd rfl (hu.zeroFree 0 hmem)
      · exact hmem
  obtain ⟨w', hw', hr⟩ := scan_end_spec hend hzero
  rw [hr] at hs
  have hfree : ZeroFree (w ++ (u ++ w')) := by
    simp [zeroFree_append, zeroFree_ws hw, zeroFree_ws hw', hu.zeroFree]
  rw [visible_eq_of_buffer (t := (scan r).rest) (by simpa using hs) hfree]
  exact ⟨w, u, w', rfl, hw, hu, hw'⟩

/-- The parser accepts exactly the texts of the grammar, each with its value, and takes a null
byte for the end of the text. -/
theorem parse_eq_ok_iff {s : Bytes} {j : Json} :
    parse libc s = .ok j ↔ Document libc (visible s) j :=
  ⟨visible_of_parse, parse_of_visible⟩

end Acceptance

section Rounds

variable {libc : Libc}

/-- What is left to a lexer, with its last token counted. -/
def Lexer.size (lx : Lexer) : ℕ := if lx.last_token = .end_of_input then 0 else lx.rest.length + 1

lemma Lexeme.ne_nil {t : TokenType} {u : Bytes} (h : Lexeme t u) : u ≠ [] := by
  intro hnil
  obtain ⟨q, hq, ha⟩ := reads_start.mpr h
  rw [hnil] at hq
  obtain rfl := Option.some.inj hq
  cases ha

lemma size_scan (r : Bytes) : (scan r).size ≤ r.length := by
  by_cases h : (scan r).last_token = .end_of_input
  · simp [Lexer.size, h]
  · obtain ⟨w, -, hr, hlex, -⟩ := scan_spec h
    have hlen := congrArg List.length hr
    have hpos := List.length_pos_iff.mpr hlex.ne_nil
    simp only [List.length_append] at hlen
    rw [Lexer.size, if_neg h]
    omega

lemma size_get_token (lx : Lexer) (h : lx.last_token ≠ .end_of_input) :
    lx.get_token.size < lx.size := by
  have hle : lx.get_token.size ≤ lx.rest.length := size_scan lx.rest
  have hsize : lx.size = lx.rest.length + 1 := if_neg h
  omega

lemma size_skipSeparator (lx : Lexer) : lx.skipSeparator.size ≤ lx.size := by
  unfold Lexer.skipSeparator
  split_ifs with h
  · exact (size_get_token lx (by simp [h])).le
  · exact le_rfl

/-- A value, members and elements each use up a token. -/
structure UsesUp (libc : Libc) (n : ℕ) : Prop where
  value : ∀ lx o lx', parse_internal libc n lx = .ok (o, lx') → lx'.size < lx.size
  members : ∀ lx acc ms lx', parse_members libc n acc lx = .ok (ms, lx') → lx'.size < lx.size
  elements : ∀ lx acc js lx', parse_elements libc n acc lx = .ok (js, lx') → lx'.size < lx.size

lemma size_elements_succ {n : ℕ} (h : UsesUp libc n) {lx lx' : Lexer} {acc js : List Json}
    (hok : parse_elements libc (n + 1) acc lx = .ok (js, lx')) : lx'.size < lx.size := by
  rw [parse_elements_succ] at hok
  obtain ⟨⟨o, lx₁⟩, hvalue, hok⟩ := Machine.bind_eq_ok.mp hok
  have hlt := h.value _ _ _ hvalue
  have hskip := size_skipSeparator lx
  dsimp only at hok
  split_ifs at hok
  · have hrest := h.elements _ _ _ _ hok
    omega
  · obtain ⟨-, rfl⟩ := Prod.mk.inj (Except.ok.inj hok)
    omega

lemma size_members_succ {n : ℕ} (h : UsesUp libc n) {lx lx' : Lexer} {acc ms : List (Bytes × Json)}
    (hok : parse_members libc (n + 1) acc lx = .ok (ms, lx')) : lx'.size < lx.size := by
  rw [parse_members_succ] at hok
  obtain ⟨i₁, hstring, hok⟩ := Machine.bind_eq_ok.mp hok
  obtain ⟨key, -, hok⟩ := Machine.bind_eq_ok.mp hok
  obtain ⟨i₂, hname, hok⟩ := Machine.bind_eq_ok.mp hok
  obtain ⟨⟨o, lx₁⟩, hvalue, hok⟩ := Machine.bind_eq_ok.mp hok
  have hskip := size_skipSeparator lx
  have hkey := size_get_token lx.skipSeparator
    (by rw [last_token_of_expect hstring]; decide)
  have hcolon := size_get_token lx.skipSeparator.get_token
    (by rw [last_token_of_expect hname]; decide)
  have hlt := h.value _ _ _ hvalue
  dsimp only at hok
  split_ifs at hok
  · have hrest := h.members _ _ _ _ hok
    omega
  · obtain ⟨-, rfl⟩ := Prod.mk.inj (Except.ok.inj hok)
    omega

lemma size_close {lx lx₁ lx' : Lexer} {t : TokenType} {i : Unit}
    (hopen : lx.get_token.size < lx.size)
    (hle : lx₁.size ≤ lx.get_token.size) (hclose : lx₁.expect t = .ok i)
    (ht : t ≠ .end_of_input) (hlx' : lx₁.get_token = lx') : lx'.size < lx.size := by
  have hlt := size_get_token lx₁ (by rw [last_token_of_expect hclose]; exact ht)
  rw [hlx'] at hlt
  omega

lemma size_value_succ {n : ℕ} (h : UsesUp libc n) {lx lx' : Lexer} {o : Option Json}
    (hok : parse_internal libc (n + 1) lx = .ok (o, lx')) : lx'.size < lx.size := by
  have hopen := size_get_token lx
  cases ht : lx.last_token
  case begin_array =>
    have hopen := hopen (by simp [ht])
    rw [parse_internal_array ht] at hok
    split_ifs at hok with hend
    · obtain ⟨-, rfl⟩ := Prod.mk.inj (Except.ok.inj hok)
      exact size_close hopen le_rfl (expect_self hend) (by decide) rfl
    · obtain ⟨i₁, -, hok⟩ := Machine.bind_eq_ok.mp hok
      obtain ⟨⟨js, lx₁⟩, hloop, hok⟩ := Machine.bind_eq_ok.mp hok
      obtain ⟨i₂, hclose, hok⟩ := Machine.bind_eq_ok.mp hok
      obtain ⟨-, rfl⟩ := Prod.mk.inj (Except.ok.inj hok)
      exact size_close hopen (h.elements _ _ _ _ hloop).le hclose (by decide) rfl
  case begin_object =>
    have hopen := hopen (by simp [ht])
    rw [parse_internal_object ht] at hok
    split_ifs at hok with hend
    · obtain ⟨-, rfl⟩ := Prod.mk.inj (Except.ok.inj hok)
      exact size_close hopen le_rfl (expect_self hend) (by decide) rfl
    · obtain ⟨i₁, -, hok⟩ := Machine.bind_eq_ok.mp hok
      obtain ⟨⟨ms, lx₁⟩, hloop, hok⟩ := Machine.bind_eq_ok.mp hok
      obtain ⟨i₂, hclose, hok⟩ := Machine.bind_eq_ok.mp hok
      obtain ⟨-, rfl⟩ := Prod.mk.inj (Except.ok.inj hok)
      exact size_close hopen (h.members _ _ _ _ hloop).le hclose (by decide) rfl
  case value_string =>
    rw [parse_internal_string ht] at hok
    obtain ⟨s, -, hok⟩ := Machine.bind_eq_ok.mp hok
    obtain ⟨-, rfl⟩ := Prod.mk.inj (Except.ok.inj hok)
    exact hopen (by simp [ht])
  all_goals
    rw [parse_internal, ht] at hok
    first
      | obtain ⟨-, rfl⟩ := Prod.mk.inj (Except.ok.inj hok)
        exact hopen (by simp [ht])
      | cases hok

lemma usesUp (n : ℕ) : UsesUp libc n := by
  induction n with
  | zero =>
    refine ⟨fun lx o lx' h => ?_, fun lx acc ms lx' h => ?_, fun lx acc js lx' h => ?_⟩
    · rw [parse_internal] at h
      cases h
    · rw [parse_members] at h
      cases h
    · rw [parse_elements] at h
      cases h
  | succ n ih =>
    exact ⟨fun _ _ _ => size_value_succ ih, fun _ _ _ _ => size_members_succ ih,
      fun _ _ _ _ => size_elements_succ ih⟩

/-- With rounds for every token twice, the rounds are not used up. -/
structure Suffices (libc : Libc) (n : ℕ) : Prop where
  value : ∀ lx : Lexer, 2 * lx.size + 1 ≤ n → parse_internal libc n lx ≠ .error .exhausted
  members : ∀ (lx : Lexer) acc, 2 * lx.size + 2 ≤ n →
    parse_members libc n acc lx ≠ .error .exhausted
  elements : ∀ (lx : Lexer) acc, 2 * lx.size + 2 ≤ n →
    parse_elements libc n acc lx ≠ .error .exhausted

lemma bind_ne_exhausted {α β : Type} {x : Except Stop α} {f : α → Except Stop β}
    (hx : x ≠ .error .exhausted) (hf : ∀ a, x = .ok a → f a ≠ .error .exhausted) :
    (x >>= f) ≠ .error .exhausted := by
  cases x with
  | error e =>
    intro h
    obtain rfl := Except.error.inj h
    exact hx rfl
  | ok a => exact hf a rfl

lemma expect_ne_exhausted (lx : Lexer) (t : TokenType) : lx.expect t ≠ .error .exhausted := by
  unfold Lexer.expect
  split_ifs <;> simp

lemma unexpect_ne_exhausted (lx : Lexer) (t : TokenType) : lx.unexpect t ≠ .error .exhausted := by
  unfold Lexer.unexpect
  split_ifs <;> simp

lemma string_ne_exhausted (lx : Lexer) : lx.string ≠ .error .exhausted := by
  unfold Lexer.string
  split <;> simp

lemma suffices_elements_succ {n : ℕ} (h : Suffices libc n) {lx : Lexer} {acc : List Json}
    (hn : 2 * lx.size + 2 ≤ n + 1) : parse_elements libc (n + 1) acc lx ≠ .error .exhausted := by
  have hskip := size_skipSeparator lx
  rw [parse_elements_succ]
  refine bind_ne_exhausted (h.value _ (by omega)) fun r hr => ?_
  have hlt := (usesUp n).value _ _ _ hr
  split_ifs
  · exact h.elements _ _ (by omega)
  · simp

lemma suffices_members_succ {n : ℕ} (h : Suffices libc n) {lx : Lexer}
    {acc : List (Bytes × Json)} (hn : 2 * lx.size + 2 ≤ n + 1) :
    parse_members libc (n + 1) acc lx ≠ .error .exhausted := by
  have hskip := size_skipSeparator lx
  rw [parse_members_succ]
  refine bind_ne_exhausted (expect_ne_exhausted _ _) fun _ hstring => ?_
  refine bind_ne_exhausted (string_ne_exhausted _) fun key _ => ?_
  refine bind_ne_exhausted (expect_ne_exhausted _ _) fun _ hname => ?_
  have hkey := size_get_token lx.skipSeparator
    (by rw [last_token_of_expect hstring]; decide)
  have hcolon := size_get_token lx.skipSeparator.get_token
    (by rw [last_token_of_expect hname]; decide)
  refine bind_ne_exhausted (h.value _ (by omega)) fun r hr => ?_
  have hlt := (usesUp n).value _ _ _ hr
  split_ifs
  · exact h.members _ _ (by omega)
  · simp

lemma suffices_value_succ {n : ℕ} (h : Suffices libc n) {lx : Lexer}
    (hn : 2 * lx.size + 1 ≤ n + 1) : parse_internal libc (n + 1) lx ≠ .error .exhausted := by
  have hopen := size_get_token lx
  cases ht : lx.last_token
  case begin_array =>
    have hopen := hopen (by simp [ht])
    rw [parse_internal_array ht]
    split_ifs
    · simp
    · refine bind_ne_exhausted (unexpect_ne_exhausted _ _) fun _ _ => ?_
      refine bind_ne_exhausted (h.elements _ _ (by omega)) fun r _ => ?_
      exact bind_ne_exhausted (expect_ne_exhausted _ _) fun _ _ => by simp
  case begin_object =>
    have hopen := hopen (by simp [ht])
    rw [parse_internal_object ht]
    split_ifs
    · simp
    · refine bind_ne_exhausted (unexpect_ne_exhausted _ _) fun _ _ => ?_
      refine bind_ne_exhausted (h.members _ _ (by omega)) fun r _ => ?_
      exact bind_ne_exhausted (expect_ne_exhausted _ _) fun _ _ => by simp
  case value_string =>
    rw [parse_internal_string ht]
    exact bind_ne_exhausted (string_ne_exhausted _) fun _ _ => by simp
  all_goals
    rw [parse_internal, ht]
    simp

lemma suffices_rounds (n : ℕ) : Suffices libc n := by
  induction n with
  | zero => exact ⟨fun _ h => absurd h (by omega), fun _ _ h => absurd h (by omega),
      fun _ _ h => absurd h (by omega)⟩
  | succ n ih =>
    exact ⟨fun _ => suffices_value_succ ih, fun _ _ => suffices_members_succ ih,
      fun _ _ => suffices_elements_succ ih⟩

theorem parse_ne_exhausted (s : Bytes) : parse libc s ≠ .error .exhausted := by
  have hsize := size_scan (buffer s)
  refine bind_ne_exhausted ((suffices_rounds _).value _ (by omega)) fun r _ => ?_
  refine bind_ne_exhausted (expect_ne_exhausted _ _) fun _ _ h => ?_
  cases h

/-- The parser ends within rounds linear in the length of the text, and throws on exactly the
texts that are not of the grammar. -/
theorem parse_throws_iff {s : Bytes} :
    parse_internal libc (2 * s.length + 3) (scan (buffer s)) ≠ .error .exhausted ∧
      parse libc s ≠ .error .exhausted ∧
      ((∃ e, parse libc s = .error (.thrown e)) ↔ ∀ j, ¬Document libc (visible s) j) := by
  refine ⟨?_, parse_ne_exhausted s, ?_⟩
  · have hsize := size_scan (buffer s)
    rw [buffer, List.length_append, List.length_singleton] at hsize
    exact (suffices_rounds _).value _ (by rw [buffer]; omega)
  constructor
  · rintro ⟨e, he⟩ j hj
    rw [parse_of_visible hj] at he
    cases he
  · intro h
    cases hs : parse libc s with
    | ok j => exact absurd (visible_of_parse hs) (h j)
    | error e =>
      cases e with
      | thrown e => exact ⟨e, rfl⟩
      | exhausted => exact absurd hs (parse_ne_exhausted s)

end Rounds

end Gpd.Jsonparser
