import Gpd.Jsonparser.Acceptance
import Gpd.Jsonparser.Numtostr

/-! The way from a value to a text and back. An integer that is not negative comes back
unsigned, a floating number as what its digits say, and everything else as it was. -/
namespace Gpd.Jsonparser
open Text Cxx

/-- The values of the library: texts are UTF-8, integers have 64 bits, and the keys of an object
increase. -/
inductive Valid : Json → Prop
  | null : Valid .null
  | boolean (b : Bool) : Valid (.boolean b)
  | string (v : List Char) : Valid (.string (encode v))
  | numberInteger {n : ℤ} : -2 ^ 63 ≤ n → n < 2 ^ 63 → Valid (.numberInteger n)
  | numberUnsigned {n : ℕ} : n < 2 ^ 64 → Valid (.numberUnsigned n)
  | numberFloat (x : FiniteDouble) : Valid (.numberFloat x)
  | array {js : List Json} : (∀ j ∈ js, Valid j) → Valid (.array js)
  | object {ms : List (Bytes × Json)} : Map.Sorted ms → (∀ m ∈ ms, ∃ k, m.1 = encode k) →
      (∀ m ∈ ms, Valid m.2) → Valid (.object ms)

section Reread

variable (libc : Libc)

mutual

/-- What becomes of a value on the way to a text and back. -/
def reread : Json → Json
  | .null => .null
  | .boolean b => .boolean b
  | .string s => .string s
  | .numberInteger n => if 0 ≤ n then .numberUnsigned n.toNat else .numberInteger n
  | .numberUnsigned n => .numberUnsigned n
  | .numberFloat x => floatValue libc (writeFloat libc x)
  | .array js => .array (rereadElements js)
  | .object ms => .object (rereadMembers ms)

def rereadElements : List Json → List Json
  | [] => []
  | j :: js => reread j :: rereadElements js

def rereadMembers : List (Bytes × Json) → List (Bytes × Json)
  | [] => []
  | (k, j) :: ms => (k, reread j) :: rereadMembers ms

end

lemma rereadElements_eq (js : List Json) : rereadElements libc js = js.map (reread libc) := by
  induction js with
  | nil => rfl
  | cons j js ih => rw [rereadElements, ih, List.map_cons]

lemma rereadMembers_eq (ms : List (Bytes × Json)) :
    rereadMembers libc ms = ms.map fun m => (m.1, reread libc m.2) := by
  induction ms with
  | nil => rfl
  | cons m ms ih =>
    obtain ⟨k, j⟩ := m
    rw [rereadMembers, ih, List.map_cons]

lemma sorted_rereadMembers {ms : List (Bytes × Json)} (h : Map.Sorted ms) :
    Map.Sorted (rereadMembers libc ms) := by
  rw [rereadMembers_eq]
  exact List.pairwise_map.mpr h

end Reread

section Grammar

variable {libc : Libc} {pretty : Bool} {step : UInt32}

lemma ws_spaces (indent : UInt32) : Ws (spaces indent) := by
  intro b hb
  rw [List.eq_of_mem_replicate hb]
  rfl

lemma ws_newline {p : Bool} : Ws (newline p) := by
  cases p
  · simp [newline, Ws]
  · simp [newline, Ws, isWs]

lemma ws_blank {p : Bool} : Ws (if p then [32] else []) := by
  cases p
  · simp [Ws]
  · simp [Ws, isWs]

lemma ws_append {w w' : Bytes} (h : Ws w) (h' : Ws w') : Ws (w ++ w') := by
  intro b hb
  rcases List.mem_append.mp hb with hb | hb
  · exact h b hb
  · exact h' b hb

/-- `dump` writes the value as a text of the grammar. -/
def Writes (libc : Libc) (pretty : Bool) (step : UInt32) (j : Json) : Prop :=
  ∀ indent, Value libc (dumpAt libc pretty step indent j) (reread libc j)

lemma elements_dump (js : List Json) (h : ∀ j ∈ js, Writes libc pretty step j) (indent : UInt32)
    (hne : js ≠ []) :
    Elements libc (newline pretty ++ dumpElements libc pretty step indent true js)
      (rereadElements libc js) := by
  induction js with
  | nil => exact absurd rfl hne
  | cons j js ih =>
    have hw := ws_append (ws_newline (p := pretty)) (ws_spaces indent)
    have hj := h j (by simp) indent
    cases js with
    | nil =>
      have hlast := Elements.last hw hj
      simpa [dumpElements, separator, rereadElements] using hlast
    | cons j' js =>
      have hrest := ih (fun i hi => h i (by simp [hi])) (by simp)
      have hcons := Elements.cons hw hj (show Ws [] by simp [Ws]) hrest
      simpa [dumpElements, separator, rereadElements] using hcons

lemma members_dump (ms : List (Bytes × Json)) (hkey : ∀ m ∈ ms, ∃ k, m.1 = encode k)
    (h : ∀ m ∈ ms, Writes libc pretty step m.2) (indent : UInt32) (hne : ms ≠ []) :
    Members libc (newline pretty ++ dumpMembers libc pretty step indent true ms)
      (rereadMembers libc ms) := by
  induction ms with
  | nil => exact absurd rfl hne
  | cons m ms ih =>
    obtain ⟨key, j⟩ := m
    obtain ⟨k, rfl⟩ : ∃ k, key = encode k := hkey (key, j) (by simp)
    obtain ⟨cs, hcs, hk⟩ := exists_spells k
    have hw := ws_append (ws_newline (p := pretty)) (ws_spaces indent)
    have hnil : Ws [] := by simp [Ws]
    have hj : Value libc (dumpAt libc pretty step indent j) (reread libc j) :=
      h (encode k, j) (by simp) indent
    cases ms with
    | nil =>
      have hlast := Members.last hw hk hnil (ws_blank (p := pretty)) hj
      simpa [dumpMembers, separator, rereadMembers, quoted, hcs] using hlast
    | cons m' ms =>
      have hrest := ih (fun i hi => hkey i (by simp [hi])) (fun i hi => h i (by simp [hi]))
        (by simp)
      have hcons := Members.cons hw hk hnil (ws_blank (p := pretty)) hj hnil hrest
      simpa [dumpMembers, separator, rereadMembers, quoted, hcs] using hcons

/-- The serializer writes texts of the grammar, whatever the indentation. -/
theorem value_dump (hlibc : libc.WritesNumbers) {j : Json} (h : Valid j) (indent : UInt32) :
    Value libc (dumpAt libc pretty step indent j) (reread libc j) := by
  induction h generalizing indent with
  | null => exact .null
  | boolean b =>
    cases b
    · exact .false
    · exact .true
  | string v =>
    obtain ⟨cs, hcs, hv⟩ := exists_spells v
    have hvalue : Value libc (quoted (stringText cs)) (.string (encode v)) := .string hv
    rwa [hcs] at hvalue
  | @numberInteger n hlow hhigh =>
    have htext : Value libc _ _ := .number (integerText n)
    rw [dumpAt, writeInteger_eq (by omega), ← integerText_text, reread]
    split_ifs with hn
    · rwa [value_of_nonneg libc hn (by omega)] at htext
    · rwa [value_of_neg libc (by omega) hlow] at htext
  | @numberUnsigned n hn =>
    have htext : Value libc _ _ := .number (integerText n)
    rw [dumpAt, writeInteger_eq (by omega), ← integerText_text, reread]
    rwa [value_of_nonneg libc (by omega) (by omega)] at htext
  | numberFloat x =>
    obtain ⟨n, hn, hint⟩ := exists_writeFloat hlibc x
    have htext : Value libc _ _ := .number n
    rwa [value_of_isInteger_false libc hint, hn] at htext
  | @array js _ ih =>
    cases js with
    | nil => exact .emptyArray (show Ws [] by simp [Ws])
    | cons j js =>
      have helements := elements_dump (j :: js) (fun i hi => ih i hi)
        (raise pretty step indent) (by simp)
      have hvalue := Value.array helements (ws_append (ws_newline (p := pretty))
        (ws_spaces (lower pretty step (raise pretty step indent))))
      simpa [dumpAt, reread] using hvalue
  | @object ms hsorted hkey _ ih =>
    cases ms with
    | nil => exact .emptyObject (show Ws [] by simp [Ws])
    | cons m ms =>
      have hmembers := members_dump (m :: ms) hkey (fun i hi => ih i hi)
        (raise pretty step indent) (by simp)
      have hvalue := Value.object hmembers (ws_append (ws_newline (p := pretty))
        (ws_spaces (lower pretty step (raise pretty step indent))))
      rw [Map.ofEntries_of_sorted (sorted_rereadMembers libc hsorted)] at hvalue
      simpa [dumpAt, reread] using hvalue

lemma document_dump (hlibc : libc.WritesNumbers) {j : Json} (h : Valid j) (indent : ℤ) :
    Document libc (dump libc indent j) (reread libc j) := by
  have hnil : Ws [] := by simp [Ws]
  unfold dump
  split_ifs
  · exact ⟨[], _, [], (List.append_nil _).symm, hnil, value_dump hlibc h _, hnil⟩
  · exact ⟨[], _, [], (List.append_nil _).symm, hnil, value_dump hlibc h _, hnil⟩

theorem parse_dump (hlibc : libc.WritesNumbers) {j : Json} (h : Valid j) (indent : ℤ) :
    parse libc (dump libc indent j) = .ok (reread libc j) := by
  have hdoc := document_dump hlibc h indent
  have hvisible : visible (dump libc indent j) = dump libc indent j := by
    simpa [visible, ZeroFree] using hdoc.zeroFree
  exact parse_of_visible (by rwa [hvisible])

end Grammar

section Parsed

variable {libc : Libc}

lemma valid_ofDouble (x : Double) : Valid (.ofDouble x) := by
  cases x with
  | finite x => exact .numberFloat x
  | infinity => exact .null
  | nan => exact .null

lemma valid_number (n : NumberText) : Valid (n.value libc) := by
  unfold NumberText.value
  split_ifs with hpos hneg
  · exact .numberUnsigned hpos.2.2
  · exact .numberInteger (by omega) (by omega)
  · exact valid_ofDouble _

mutual

theorem Value.valid {u : Bytes} {j : Json} (h : Value libc u j) : Valid j := by
  cases h with
  | null => exact .null
  | true => exact .boolean true
  | false => exact .boolean false
  | @string cs v hv => exact .string v
  | number n => exact valid_number n
  | emptyArray hw => exact .array (by simp)
  | @array e w js he hw => exact .array he.valid
  | emptyObject hw => exact .object Map.sorted_nil (by simp) (by simp)
  | @object m w ms hm hw =>
    have hvalid := hm.valid
    exact .object (Map.sorted_ofEntries ms) (fun a ha => (hvalid a (Map.mem_of_mem_ofEntries ha)).1)
      fun a ha => (hvalid a (Map.mem_of_mem_ofEntries ha)).2
termination_by 2 * u.length
decreasing_by all_goals simp only [List.length_cons, List.length_append]; omega

theorem Elements.valid {e : Bytes} {js : List Json} (h : Elements libc e js) :
    ∀ j ∈ js, Valid j := by
  cases h with
  | @last w u j hw hu =>
    have hvalue := hu.valid
    simpa using hvalue
  | @cons w u w' e j js hw hu hw' he =>
    have hvalue := hu.valid
    have hrest := he.valid
    simpa using ⟨hvalue, hrest⟩
termination_by 2 * e.length + 1
decreasing_by all_goals simp only [List.length_cons, List.length_append]; omega

theorem Members.valid {m : Bytes} {ms : List (Bytes × Json)} (h : Members libc m ms) :
    ∀ a ∈ ms, (∃ k, a.1 = encode k) ∧ Valid a.2 := by
  cases h with
  | @last w w₁ w₂ u cs k j hw hk hw₁ hw₂ hu =>
    have hvalue := hu.valid
    simpa using hvalue
  | @cons w w₁ w₂ u w₃ m cs k j ms hw hk hw₁ hw₂ hu hw₃ hm =>
    have hvalue := hu.valid
    have hrest := hm.valid
    intro a ha
    rcases List.mem_cons.mp ha with rfl | ha
    · exact ⟨⟨k, rfl⟩, hvalue⟩
    · exact hrest a ha
termination_by 2 * m.length + 1
decreasing_by all_goals simp only [List.length_cons, List.length_append]; omega

end

theorem valid_of_parse {s : Bytes} {j : Json} (h : parse libc s = .ok j) : Valid j := by
  obtain ⟨w, u, w', -, -, hu, -⟩ := visible_of_parse h
  exact hu.valid

lemma valid_reread (hlibc : libc.WritesNumbers) {j : Json} (h : Valid j) : Valid (reread libc j) :=
  valid_of_parse (parse_dump hlibc h (-1))

/-- The digits that are written of a floating number are read as a number with these digits. -/
def Libc.KeepsDigits (libc : Libc) : Prop :=
  ∀ x y, strtonum libc (writeFloat libc x) = .finite y → writeFloat libc y = writeFloat libc x

lemma reread_reread (hlibc : libc.KeepsDigits) {j : Json} (h : Valid j) :
    reread libc (reread libc j) = reread libc j := by
  induction h with
  | null => rfl
  | boolean b => rfl
  | string v => rfl
  | @numberInteger n _ _ =>
    rw [reread]
    split_ifs with hn
    · rfl
    · rw [reread, if_neg hn]
  | numberUnsigned _ => rfl
  | numberFloat x =>
    rw [reread, floatValue]
    cases hx : strtonum libc (writeFloat libc x) with
    | infinity => rfl
    | nan => rfl
    | finite y => rw [Json.ofDouble, reread, hlibc x y hx, floatValue, hx, Json.ofDouble]
  | @array js _ ih =>
    simp only [reread, rereadElements_eq, List.map_map, Json.array.injEq]
    exact List.map_congr_left ih
  | @object ms _ _ _ ih =>
    simp only [reread, rereadMembers_eq, List.map_map, Json.object.injEq]
    exact List.map_congr_left fun m hm => Prod.ext rfl (ih m hm)

/-- What a dumped value is parsed to comes back unchanged from then on, at every indentation. -/
theorem parse_dump_parse (hwrites : libc.WritesNumbers) (hkeeps : libc.KeepsDigits) {s : Bytes}
    {j : Json} (h : parse libc s = .ok j) :
    ∃ j', ∀ indent : ℤ, parse libc (dump libc indent j) = .ok j' ∧
      parse libc (dump libc indent j') = .ok j' := by
  have hj := valid_of_parse h
  refine ⟨reread libc j, fun indent => ⟨parse_dump hwrites hj indent, ?_⟩⟩
  rw [parse_dump hwrites (valid_reread hwrites hj), reread_reread hkeeps hj]

lemma testLibc_writeFloat (x : FiniteDouble) :
    writeFloat testLibc x = ascii "-0.0" ∧ x = .negativeZero ∨
      writeFloat testLibc x = ascii "0.3" ∨ writeFloat testLibc x = ascii "0.0" := by
  unfold writeFloat
  split_ifs with h0 hneg
  · exact .inl ⟨rfl, hneg⟩
  · exact .inr (.inr rfl)
  · by_cases hx : x.value = threeTenths ∨ x.value = threeTenthsUp
    · have htext : testLibc.snprintf x.value = ascii "0.3" := if_pos hx
      rw [htext]
      exact .inr (.inl rfl)
    · have htext : testLibc.snprintf x.value = ascii "0" := if_neg hx
      rw [htext]
      exact .inr (.inr rfl)

lemma testLibc_keepsDigits : testLibc.KeepsDigits := by
  intro x y hy
  have hread : strtonum testLibc (ascii "-0.0") = .finite .negativeZero ∧
      strtonum testLibc (ascii "0.3") = .finite (.number threeTenths) ∧
      strtonum testLibc (ascii "0.0") = .finite (.number 0) := by decide
  rcases testLibc_writeFloat x with ⟨hx, -⟩ | hx | hx <;> rw [hx] at hy ⊢
  · obtain rfl := Double.finite.inj (hread.1.symm.trans hy)
    decide
  · obtain rfl := Double.finite.inj (hread.2.1.symm.trans hy)
    decide
  · obtain rfl := Double.finite.inj (hread.2.2.symm.trans hy)
    decide

/-- The digits of 0.1 + 0.2 are too few for it, and the sign of a zero is kept. -/
theorem parse_dump_parse_pair :
    ∃ j j', parse testLibc (ascii "[0.30000000000000004, -0.0]") = .ok j ∧ j ≠ j' ∧
      ∀ indent : ℤ, parse testLibc (dump testLibc indent j) = .ok j' ∧
        parse testLibc (dump testLibc indent j') = .ok j' := by
  have hparse : parse testLibc (ascii "[0.30000000000000004, -0.0]") =
      .ok (.array [.numberFloat (.number threeTenthsUp), .numberFloat .negativeZero]) := rfl
  obtain ⟨j', hj'⟩ := parse_dump_parse testLibc_writesNumbers testLibc_keepsDigits hparse
  refine ⟨_, j', hparse, ?_, hj'⟩
  have hagain : parse testLibc (dump testLibc (-1)
      (.array [.numberFloat (.number threeTenthsUp), .numberFloat .negativeZero])) =
      .ok (.array [.numberFloat (.number threeTenths), .numberFloat .negativeZero]) := rfl
  obtain rfl := Except.ok.inj (hagain.symm.trans (hj' (-1)).1)
  have hne : threeTenthsUp ≠ threeTenths := by decide
  simpa using hne

end Parsed

section Lossless

variable (libc : Libc)

/-- What comes back as it was: no integer that is not negative is stored as a signed one, and
the digits of every floating number denote it. -/
inductive Lossless : Json → Prop
  | null : Lossless .null
  | boolean (b : Bool) : Lossless (.boolean b)
  | string (s : Bytes) : Lossless (.string s)
  | numberInteger {n : ℤ} : n < 0 → Lossless (.numberInteger n)
  | numberUnsigned (n : ℕ) : Lossless (.numberUnsigned n)
  | numberFloat {x : FiniteDouble} : strtonum libc (writeFloat libc x) = .finite x →
      Lossless (.numberFloat x)
  | array {js : List Json} : (∀ j ∈ js, Lossless j) → Lossless (.array js)
  | object {ms : List (Bytes × Json)} : (∀ m ∈ ms, Lossless m.2) → Lossless (.object ms)

variable {libc}

lemma reread_eq_iff {j : Json} (h : Valid j) : reread libc j = j ↔ Lossless libc j := by
  constructor
  · intro hj
    induction h with
    | null => exact .null
    | boolean b => exact .boolean b
    | string v => exact .string _
    | @numberInteger n _ _ =>
      rw [reread] at hj
      split_ifs at hj with hn
      exact .numberInteger (by omega)
    | @numberUnsigned n _ => exact .numberUnsigned n
    | numberFloat x =>
      rw [reread, floatValue] at hj
      cases hx : strtonum libc (writeFloat libc x) with
      | finite y =>
        rw [hx] at hj
        obtain rfl := Json.numberFloat.inj hj
        exact .numberFloat hx
      | infinity => simp [hx, Json.ofDouble] at hj
      | nan => simp [hx, Json.ofDouble] at hj
    | @array js _ ih =>
      rw [reread, rereadElements_eq, Json.array.injEq] at hj
      refine .array fun j hmem => ih j hmem ?_
      have hall := List.map_eq_map_iff.mp (hj.trans (List.map_id js).symm)
      exact hall j hmem
    | @object ms _ _ _ ih =>
      rw [reread, rereadMembers_eq, Json.object.injEq] at hj
      refine .object fun m hmem => ih m hmem ?_
      have hall := List.map_eq_map_iff.mp (hj.trans (List.map_id ms).symm)
      exact congrArg Prod.snd (hall m hmem)
  · intro hj
    induction hj with
    | null | boolean | string | numberUnsigned => rfl
    | numberInteger hn => rw [reread, if_neg (by omega)]
    | numberFloat hx => rw [reread, floatValue, hx, Json.ofDouble]
    | @array js hjs ih =>
      cases h with
      | array hvalid =>
        have hmap := List.map_congr_left fun j hmem => ih j hmem (hvalid j hmem)
        rw [reread, rereadElements_eq, hmap, List.map_id']
    | @object ms hms ih =>
      cases h with
      | object _ _ hvalid =>
        have hmap : (ms.map fun m => (m.1, reread libc m.2)) = ms.map id :=
          List.map_congr_left fun m hmem => Prod.ext rfl (ih m hmem (hvalid m hmem))
        rw [reread, rereadMembers_eq, hmap, List.map_id]

/-- A value is dumped as a text of the grammar at every indentation, and parsed to itself
exactly when it is lossless. -/
theorem parse_dump_eq_iff (hlibc : libc.WritesNumbers) {j : Json} (h : Valid j) (indent : ℤ) :
    Document libc (dump libc indent j) (reread libc j) ∧
      (parse libc (dump libc indent j) = .ok j ↔ Lossless libc j) := by
  refine ⟨document_dump hlibc h indent, ?_⟩
  rw [parse_dump hlibc h indent, Except.ok.injEq]
  exact reread_eq_iff h

/-- A value with a fraction, a zero with a sign and a number that is not negative comes back; the
same number as a signed one does not. -/
theorem parse_dump_eq_iff_signed :
    parse testLibc (dump testLibc 4 (.array [.numberFloat (.number threeTenths),
        .numberFloat .negativeZero, .numberUnsigned 7])) =
      .ok (.array [.numberFloat (.number threeTenths), .numberFloat .negativeZero,
        .numberUnsigned 7]) ∧
    parse testLibc (dump testLibc 4 (.numberInteger 7)) ≠ .ok (.numberInteger 7) := by
  constructor
  · refine (parse_dump_eq_iff testLibc_writesNumbers (.array fun j hj => ?_) 4).2.mpr
      (.array fun j hj => ?_)
    · simp only [List.mem_cons, List.not_mem_nil, or_false] at hj
      rcases hj with rfl | rfl | rfl
      · exact .numberFloat _
      · exact .numberFloat _
      · exact .numberUnsigned (by decide)
    · simp only [List.mem_cons, List.not_mem_nil, or_false] at hj
      rcases hj with rfl | rfl | rfl
      · exact .numberFloat (by decide)
      · exact .numberFloat (by decide)
      · exact .numberUnsigned 7
  · have hvalid : Valid (.numberInteger 7) := .numberInteger (by decide) (by decide)
    refine (parse_dump_eq_iff testLibc_writesNumbers hvalid 4).2.not.mpr fun h => ?_
    cases h with
    | numberInteger h => exact absurd h (by decide)

end Lossless

end Gpd.Jsonparser
