import Gpd.Cxx.String

/-! What `std::stoi` accepts: the parts of a text that it reads as a number, and the rest
of the text, which it ignores. -/
namespace Gpd.Cxx
open Text

/-- White space, a sign or none, digits, and a rest that no digit begins. -/
structure Numeral where
  space : Bytes
  sign : Bytes
  digits : Bytes
  rest : Bytes
  spaces : ∀ b ∈ space, isSpace b = true
  signs : sign = [] ∨ sign = [43] ∨ sign = [45]
  nonempty : digits ≠ []
  decimals : ∀ b ∈ digits, isDigit b = true
  ends : ∀ b ∈ rest.head?, isDigit b = false

namespace Numeral

def text (n : Numeral) : Bytes := n.space ++ (n.sign ++ (n.digits ++ n.rest))

def value (n : Numeral) : ℤ :=
  if n.sign = [45] then -(readDecimal n.digits : ℤ) else readDecimal n.digits

def InRange (n : Numeral) : Prop := -2147483648 ≤ n.value ∧ n.value ≤ 2147483647

instance (n : Numeral) : Decidable n.InRange := by
  unfold InRange
  infer_instance

variable (n : Numeral)

lemma exists_digit : ∃ b l, n.digits ++ n.rest = b :: l ∧ isDigit b = true := by
  obtain ⟨b, l, hb⟩ := List.exists_cons_of_ne_nil n.nonempty
  exact ⟨b, l ++ n.rest, by rw [hb, List.cons_append], n.decimals b (by simp [hb])⟩

lemma exists_head : ∃ b l, n.sign ++ (n.digits ++ n.rest) = b :: l ∧ isSpace b = false := by
  obtain ⟨b, l, hb, hd⟩ := n.exists_digit
  rw [hb]
  rcases n.signs with hs | hs | hs
  · exact ⟨b, l, by rw [hs, List.nil_append], not_isSpace_of_isDigit hd⟩
  · exact ⟨43, b :: l, by rw [hs, List.singleton_append], by decide⟩
  · exact ⟨45, b :: l, by rw [hs, List.singleton_append], by decide⟩

lemma takeWhile_text : n.text.takeWhile isSpace = n.space := by
  obtain ⟨b, l, hb, hs⟩ := n.exists_head
  rw [text, List.takeWhile_append_of_pos n.spaces, hb, List.takeWhile_cons_of_neg (by simp [hs]),
    List.append_nil]

lemma dropWhile_text : n.text.dropWhile isSpace = n.sign ++ (n.digits ++ n.rest) := by
  obtain ⟨b, l, hb, hs⟩ := n.exists_head
  rw [text, List.dropWhile_append_of_pos n.spaces, hb, List.dropWhile_cons_of_neg (by simp [hs])]

lemma splitSign_text :
    splitSign (n.sign ++ (n.digits ++ n.rest)) =
      (decide (n.sign = [45]), n.digits ++ n.rest) := by
  obtain ⟨b, l, hb, hd⟩ := n.exists_digit
  rcases n.signs with hs | hs | hs
  · rw [hs, List.nil_append, hb, splitSign_of_isDigit hd]
    simp
  · simp [hs, splitSign]
  · simp [hs, splitSign]

lemma takeWhile_digits : (n.digits ++ n.rest).takeWhile isDigit = n.digits := by
  rw [List.takeWhile_append_of_pos n.decimals]
  have hrest : n.rest.takeWhile isDigit = [] := by
    have hends := n.ends
    cases hr : n.rest with
    | nil => rfl
    | cons b l => simp [hends b (by simp [hr])]
  rw [hrest, List.append_nil]

theorem text_injective {m n : Numeral} (h : m.text = n.text) : m = n := by
  have hspace : m.space = n.space := by rw [← m.takeWhile_text, h, n.takeWhile_text]
  have hsigned : m.sign ++ (m.digits ++ m.rest) = n.sign ++ (n.digits ++ n.rest) := by
    rw [← m.dropWhile_text, h, n.dropWhile_text]
  have hbehind : m.digits ++ m.rest = n.digits ++ n.rest := by
    have hsplit := congrArg splitSign hsigned
    rw [m.splitSign_text, n.splitSign_text] at hsplit
    exact (Prod.mk.inj hsplit).2
  have hsign : m.sign = n.sign := by
    rw [hbehind] at hsigned
    exact List.append_cancel_right hsigned
  have hdigits : m.digits = n.digits := by
    rw [← m.takeWhile_digits, hbehind, n.takeWhile_digits]
  have hrest : m.rest = n.rest := by
    rw [hdigits] at hbehind
    exact List.append_cancel_left hbehind
  cases m
  cases n
  simp_all

theorem stoi_text :
    stoi n.text = if n.InRange then .ok n.value else .error .stoiOutOfRange := by
  simp only [stoi, n.dropWhile_text, n.splitSign_text, n.takeWhile_digits, if_neg n.nonempty,
    decide_eq_true_eq]
  rfl

end Numeral

theorem exists_numeral {s : Bytes} (h : stoi s ≠ .error .stoiInvalidArgument) :
    ∃ n : Numeral, n.text = s := by
  have hne : (splitSign (s.dropWhile isSpace)).2.takeWhile isDigit ≠ [] :=
    fun hnil => h (if_pos hnil)
  obtain ⟨sign, hsigns, hsplit⟩ : ∃ sign, (sign = [] ∨ sign = [43] ∨ sign = [45]) ∧
      s.dropWhile isSpace = sign ++ (splitSign (s.dropWhile isSpace)).2 := by
    generalize s.dropWhile isSpace = t
    unfold splitSign
    split
    · exact ⟨[45], by simp, rfl⟩
    · exact ⟨[43], by simp, rfl⟩
    · exact ⟨[], by simp, rfl⟩
  generalize (splitSign (s.dropWhile isSpace)).2 = t at hsplit hne
  refine ⟨⟨s.takeWhile isSpace, sign, t.takeWhile isDigit, t.dropWhile isDigit,
    fun b hb => List.mem_takeWhile_imp hb, hsigns, hne,
    fun b hb => List.mem_takeWhile_imp hb, fun b hb => ?_⟩, ?_⟩
  · have hhead := List.head?_dropWhile_not isDigit t
    rw [Option.mem_def.mp hb] at hhead
    simpa using hhead
  · rw [Numeral.text, List.takeWhile_append_dropWhile, ← hsplit, List.takeWhile_append_dropWhile]

/-- `stoi` reads exactly the numerals in the range of `int`. -/
theorem stoi_eq_ok_iff {s : Bytes} {v : ℤ} :
    stoi s = .ok v ↔ ∃ n : Numeral, n.text = s ∧ n.InRange ∧ n.value = v := by
  constructor
  · intro h
    obtain ⟨n, rfl⟩ := exists_numeral (s := s) (by simp [h])
    rw [n.stoi_text] at h
    split_ifs at h with hr
    exact ⟨n, rfl, hr, Except.ok.inj h⟩
  · rintro ⟨n, rfl, hr, rfl⟩
    rw [n.stoi_text, if_pos hr]

end Gpd.Cxx
