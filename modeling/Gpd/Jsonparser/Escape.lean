import Gpd.Jsonparser.GetString

/-! The serializer's strings: a buffer of the escaped length, filled from left to right. -/
namespace Gpd.Jsonparser
open Text Cxx

/-- The characters that are written as a backslash and one more. -/
def shortEscape (c : UInt8) : Option UInt8 :=
  if c = '"'.toUInt8 then some '"'.toUInt8
  else if c = '\\'.toUInt8 then some '\\'.toUInt8
  else if c = 8 then some 'b'.toUInt8
  else if c = 12 then some 'f'.toUInt8
  else if c = '\n'.toUInt8 then some 'n'.toUInt8
  else if c = '\r'.toUInt8 then some 'r'.toUInt8
  else if c = '\t'.toUInt8 then some 't'.toUInt8
  else none

/-- The other control characters; a `char` beyond 127 is negative or large. -/
def isControl (c : UInt8) : Bool := c ≤ 0x1f

/-- What `extra_space` adds up. -/
def addSpace (res : ℕ) (c : UInt8) : ℕ :=
  match shortEscape c with
  | some _ => res + 1
  | none => if isControl c then res + 5 else res

def extra_space (s : Bytes) : ℕ := s.foldl addSpace 0

def hexify (n : ℕ) : UInt8 := (ascii "0123456789abcdef").getD n 0

/-- `result` and `pos`. -/
structure EscapeBuffer where
  result : Bytes
  pos : ℕ

namespace EscapeBuffer

/-- `result[i] = m`, inside the string only. -/
def put (st : EscapeBuffer) (i : ℕ) (m : UInt8) : Option EscapeBuffer :=
  if i < st.result.length then some { st with result := st.result.set i m } else none

/-- `result[++pos] = m` -/
def push (st : EscapeBuffer) (m : UInt8) : Option EscapeBuffer :=
  { st with pos := st.pos + 1 }.put (st.pos + 1) m

def advance (n : ℕ) (st : EscapeBuffer) : EscapeBuffer := { st with pos := st.pos + n }

/-- One round of the loop of `escape_string`. A backslash is there already. -/
def step (st : EscapeBuffer) (c : UInt8) : Option EscapeBuffer :=
  match shortEscape c with
  | some m =>
    if m = '\\'.toUInt8 then some (st.advance 2) else (st.put (st.pos + 1) m).map (advance 2)
  | none =>
    if isControl c then
      ([117, 48, 48, hexify (c >>> 4).toNat, hexify (c &&& 0x0f).toNat].foldlM push st).map
        (advance 1)
    else (st.put st.pos c).map (advance 1)

end EscapeBuffer

/-- The loop, without a result when it writes outside the string. -/
def escapeLoop (s : Bytes) : Option EscapeBuffer :=
  s.foldlM EscapeBuffer.step ⟨List.replicate (s.length + extra_space s) 92, 0⟩

def escape_string (s : Bytes) : Bytes :=
  if extra_space s = 0 then s else (escapeLoop s).elim [] EscapeBuffer.result

def escaped (c : UInt8) : Bytes :=
  match shortEscape c with
  | some m => [92, m]
  | none =>
    if isControl c then [92, 117, 48, 48, hexify (c >>> 4).toNat, hexify (c &&& 0x0f).toNat]
    else [c]

section Loop

lemma put_append (d t : Bytes) (b m : UInt8) (pos : ℕ) :
    (EscapeBuffer.mk (d ++ b :: t) pos).put d.length m = some ⟨d ++ m :: t, pos⟩ := by
  rw [EscapeBuffer.put, if_pos (by simp)]
  simp

lemma foldlM_push (ms d t : Bytes) (b : UInt8) :
    ms.foldlM EscapeBuffer.push ⟨d ++ b :: (List.replicate ms.length 92 ++ t), d.length⟩ =
      some ⟨d ++ b :: (ms ++ t), d.length + ms.length⟩ := by
  induction ms generalizing d b with
  | nil => rfl
  | cons m ms ih =>
    have hput := put_append (d ++ [b]) (List.replicate ms.length 92 ++ t) 92 m (d.length + 1)
    have hrest := ih (d ++ [b]) m
    simp only [List.append_assoc, List.singleton_append, List.length_append, List.length_cons,
      List.length_nil, zero_add] at hput hrest
    rw [List.foldlM_cons, EscapeBuffer.push, List.length_cons, List.replicate_succ,
      List.cons_append]
    dsimp only
    rw [hput, Option.bind_eq_bind, Option.bind_some, hrest]
    simp [Nat.add_assoc, Nat.add_comm 1]

lemma step_append (d : Bytes) (c : UInt8) (k : ℕ) :
    (EscapeBuffer.mk (d ++ List.replicate ((escaped c).length + k) 92) d.length).step c =
      some ⟨d ++ (escaped c ++ List.replicate k 92), d.length + (escaped c).length⟩ := by
  unfold EscapeBuffer.step escaped
  cases hs : shortEscape c with
  | some m =>
    by_cases hm : m = '\\'.toUInt8
    · subst hm
      have hk : List.replicate (2 + k) (92 : UInt8) = 92 :: 92 :: List.replicate k 92 := by
        rw [Nat.add_comm, List.replicate_succ, List.replicate_succ]
      simp only [List.length_cons, List.length_nil, zero_add, Nat.reduceAdd, hk]
      rfl
    · have hput := put_append (d ++ [92]) (List.replicate k 92) 92 m d.length
      have hk : List.replicate (2 + k) (92 : UInt8) = 92 :: 92 :: List.replicate k 92 := by
        rw [Nat.add_comm, List.replicate_succ, List.replicate_succ]
      simp only [List.append_assoc, List.singleton_append, List.length_append, List.length_cons,
        List.length_nil, zero_add] at hput
      simp only [List.length_cons, List.length_nil, zero_add, Nat.reduceAdd, hk, if_neg hm, hput]
      rfl
  | none =>
    dsimp only
    split_ifs with hc
    · have hpush := foldlM_push [117, 48, 48, hexify (c >>> 4).toNat, hexify (c &&& 0x0f).toNat] d
        (List.replicate k 92) 92
      have hk : List.replicate (6 + k) (92 : UInt8) =
          92 :: (List.replicate 5 92 ++ List.replicate k 92) := by
        rw [List.replicate_append_replicate, ← List.replicate_succ, Nat.add_right_comm]
      simp only [List.length_cons, List.length_nil, zero_add, Nat.reduceAdd] at hpush ⊢
      rw [hk, hpush]
      rfl
    · have hput := put_append d (List.replicate k 92) 92 c d.length
      have hk : List.replicate (1 + k) (92 : UInt8) = 92 :: List.replicate k 92 := by
        rw [Nat.add_comm, List.replicate_succ]
      simp only [List.length_cons, List.length_nil, zero_add, hk, hput]
      rfl

lemma foldlM_step (s d : Bytes) (k : ℕ) :
    s.foldlM EscapeBuffer.step ⟨d ++ List.replicate ((s.flatMap escaped).length + k) 92, d.length⟩ =
      some ⟨d ++ (s.flatMap escaped ++ List.replicate k 92),
        d.length + (s.flatMap escaped).length⟩ := by
  induction s generalizing d with
  | nil => simp
  | cons c s ih =>
    have hstep := step_append d c ((s.flatMap escaped).length + k)
    have hrest := ih (d ++ escaped c)
    rw [List.length_append, List.append_assoc] at hrest
    rw [List.flatMap_cons, List.length_append, Nat.add_assoc, List.foldlM_cons, hstep,
      Option.bind_eq_bind, Option.bind_some, hrest]
    simp [Nat.add_assoc]

lemma length_escaped (res : ℕ) (c : UInt8) : res + (escaped c).length = addSpace res c + 1 := by
  unfold escaped addSpace
  cases shortEscape c with
  | some m => rfl
  | none =>
    dsimp only
    split_ifs <;> rfl

lemma length_flatMap_escaped (s : Bytes) :
    (s.flatMap escaped).length = s.length + extra_space s := by
  have hfold (res : ℕ) : res + (s.flatMap escaped).length = s.length + s.foldl addSpace res := by
    induction s generalizing res with
    | nil => simp
    | cons c s ih =>
      have hc := length_escaped res c
      have hs := ih (addSpace res c)
      simp only [List.flatMap_cons, List.length_append, List.length_cons, List.foldl_cons]
      omega
  have h := hfold 0
  rwa [zero_add] at h

lemma escaped_eq_or (c : UInt8) : escaped c = [c] ∨ 2 ≤ (escaped c).length := by
  unfold escaped
  cases shortEscape c with
  | some m => exact .inr le_rfl
  | none =>
    dsimp only
    split_ifs
    · exact .inr (by simp)
    · exact .inl rfl

lemma flatMap_escaped_of_extra_space {s : Bytes} (h : extra_space s = 0) :
    s.flatMap escaped = s := by
  have hlen := length_flatMap_escaped s
  rw [h] at hlen
  clear h
  induction s with
  | nil => rfl
  | cons c s ih =>
    have hs := length_flatMap_escaped s
    rw [List.flatMap_cons, List.length_append, List.length_cons] at hlen
    rcases escaped_eq_or c with hc | hc
    · rw [hc, List.length_singleton] at hlen
      rw [List.flatMap_cons, hc, ih (by omega), List.singleton_append]
    · omega

/-- The loop stays inside the string and fills all of it. -/
theorem escapeLoop_eq (s : Bytes) :
    escapeLoop s = some ⟨s.flatMap escaped, s.length + extra_space s⟩ := by
  have h := foldlM_step s [] 0
  simp only [length_flatMap_escaped, Nat.add_zero, List.nil_append, List.replicate_zero,
    List.append_nil, List.length_nil, Nat.zero_add] at h
  exact h

theorem escape_string_eq (s : Bytes) : escape_string s = s.flatMap escaped := by
  unfold escape_string
  split_ifs with h
  · exact (flatMap_escaped_of_extra_space h).symm
  · rw [escapeLoop_eq]
    rfl

end Loop

section Spelling

/-- What the escapes are in the scanner's rules: a short one reads back as its character, the
digits of another one too, and what is not escaped needs no escape. -/
structure EscapeRules (c : UInt8) : Prop where
  short : ∀ m ∈ shortEscape c, isSingleEscaped m = true ∧ (singleChar m).toNat = c.toNat
  unicode : isControl c = true → isHex (hexify (c >>> 4).toNat) = true ∧
    isHex (hexify (c &&& 0x0f).toNat) = true ∧
    strtoul [48, 48, hexify (c >>> 4).toNat, hexify (c &&& 0x0f).toNat] = c.toNat
  plain : shortEscape c = none ∧ isControl c = false → 0x20 ≤ c.toNat ∧ c ≠ 34 ∧ c ≠ 92
  beyond : 0x80 ≤ c.toNat → shortEscape c = none ∧ isControl c = false

lemma escapeRules (c : UInt8) : EscapeRules c := by
  refine ⟨?_, ?_, ?_, ?_⟩
  · intro m hm
    unfold shortEscape at hm
    split_ifs at hm <;> cases hm <;> subst c <;> exact ⟨rfl, rfl⟩
  · exact forall_byte (P := fun c => isControl c = true →
      isHex (hexify (c >>> 4).toNat) = true ∧ isHex (hexify (c &&& 0x0f).toNat) = true ∧
      strtoul [48, 48, hexify (c >>> 4).toNat, hexify (c &&& 0x0f).toNat] = c.toNat)
      (by decide +kernel) c
  · exact forall_byte (P := fun c => shortEscape c = none ∧ isControl c = false →
      0x20 ≤ c.toNat ∧ c ≠ 34 ∧ c ≠ 92) (by decide +kernel) c
  · exact forall_byte (P := fun c => 0x80 ≤ c.toNat → shortEscape c = none ∧ isControl c = false)
      (by decide +kernel) c

lemma escaped_of_ge {c : UInt8} (h : 0x80 ≤ c.toNat) : escaped c = [c] := by
  obtain ⟨hs, hc⟩ := (escapeRules c).beyond h
  simp [escaped, hs, hc]

lemma flatMap_escaped_of_ge {u : Bytes} (h : ∀ b ∈ u, 0x80 ≤ b.toNat) : u.flatMap escaped = u := by
  induction u with
  | nil => rfl
  | cons b u ih =>
    rw [List.flatMap_cons, escaped_of_ge (h b (by simp)), ih fun c hc => h c (by simp [hc]),
      List.singleton_append]

lemma exists_stringChar_ascii {c : Char} {b : UInt8} (hb : b.toNat = c.toNat)
    (hc : c.toNat < 0x80) :
    ∃ x : StringChar, x.text = escaped b ∧ ∀ cs v, Spells cs v → Spells (x :: cs) (c :: v) := by
  have hrules := escapeRules b
  cases hs : shortEscape b with
  | some m =>
    obtain ⟨hm, hval⟩ := hrules.short m hs
    obtain rfl : singleChar m = c := Char.toNat_inj.mp (hval.trans hb)
    exact ⟨.single m hm, by simp [escaped, hs, StringChar.text], fun cs v hv => .single hv⟩
  | none =>
    cases hctl : isControl b with
    | true =>
      obtain ⟨h₃, h₄, hval⟩ := hrules.unicode hctl
      refine ⟨.unicode ⟨48, 48, hexify (b >>> 4).toNat, hexify (b &&& 0x0f).toNat, ?_⟩, ?_, ?_⟩
      · simp only [h₃, h₄]
        rfl
      · simp [escaped, hs, hctl, StringChar.text, Hex4.text]
      · intro cs v hv
        exact .basic (hval.trans hb) hv
    | false =>
      obtain ⟨hlow, hquote, hslash⟩ := hrules.plain ⟨hs, hctl⟩
      have hne {n : ℕ} (hn : n < 256) (h : b ≠ UInt8.ofNat n) : c.toNat ≠ n := by
        intro he
        refine h (UInt8.toNat_inj.mp ?_)
        rw [toNat_ofNat_byte hn, hb, he]
      refine ⟨.unescaped c ⟨by omega, ?_, ?_⟩, ?_, fun cs v hv => .unescaped hv⟩
      · rintro rfl
        exact hne (n := 34) (by decide) hquote rfl
      · rintro rfl
        exact hne (n := 92) (by decide) hslash rfl
      · rw [StringChar.text, encodeChar_of_lt hc, ← hb, UInt8.ofNat_toNat]
        simp [escaped, hs, hctl]

lemma exists_stringChar (c : Char) : ∃ x : StringChar,
    x.text = (String.utf8EncodeChar c).flatMap escaped ∧
      ∀ cs v, Spells cs v → Spells (x :: cs) (c :: v) := by
  by_cases hc : c.toNat < 0x80
  · obtain ⟨x, hx, hspells⟩ :=
      exists_stringChar_ascii (b := UInt8.ofNat c.toNat) (toNat_ofNat_byte (by omega)) hc
    exact ⟨x, by simp [encodeChar_of_lt hc, hx], hspells⟩
  · have hle := (utf8_encodeChar c).le_of_mem (length_encodeChar_of_le (by omega))
    have hne {d : Char} (hd : d.toNat < 0x80) : c ≠ d := by
      rintro rfl
      exact hc hd
    refine ⟨.unescaped c ⟨by omega, hne (by decide), hne (by decide)⟩, ?_,
      fun cs v hv => .unescaped hv⟩
    rw [flatMap_escaped_of_ge hle]
    rfl

/-- The escaped UTF-8 of a text is the inside of a string token that spells the text. -/
theorem exists_spells (v : List Char) :
    ∃ cs, stringText cs = escape_string (encode v) ∧ Spells cs v := by
  rw [escape_string_eq]
  induction v with
  | nil => exact ⟨[], rfl, .nil⟩
  | cons c v ih =>
    obtain ⟨cs, hcs, hv⟩ := ih
    obtain ⟨x, hx, hspells⟩ := exists_stringChar c
    refine ⟨x :: cs, ?_, hspells cs v hv⟩
    rw [stringText, List.flatMap_cons, hx, encode, List.flatMap_cons, List.flatMap_append]
    exact congrArg _ hcs

/-- The loop stays inside a string of the computed length and fills all of it, whatever the
bytes; and UTF-8 is unescaped to itself. -/
theorem getString_escape_string (s : Bytes) (v : List Char) :
    (escapeLoop s = some ⟨escape_string s, s.length + extra_space s⟩ ∧
      (escape_string s).length = s.length + extra_space s) ∧
    getString (escape_string (encode v)) = .ok (encode v) := by
  obtain ⟨cs, hcs, hv⟩ := exists_spells v
  refine ⟨⟨by rw [escapeLoop_eq, escape_string_eq], ?_⟩, ?_⟩
  · rw [escape_string_eq, length_flatMap_escaped]
  · rw [← hcs, getString_of_spells hv]

end Spelling

end Gpd.Jsonparser
