import Gpd.Cxx.String

/-! Header blocks of HTTP/1.1: their text, a parser that reads the text back, and the
framing of a body by its declared length. -/
namespace Gpd.Http
open Text Cxx

/-- The characters of a token. -/
def isTchar (b : UInt8) : Bool :=
  isDigit b || (65 ≤ b && b ≤ 90) || (97 ≤ b && b ≤ 122) ||
    b ∈ [33, 35, 36, 37, 38, 39, 42, 43, 45, 46, 94, 95, 96, 124, 126]

/-- The text has no line break. -/
def OneLine (s : Bytes) : Prop := ∀ b ∈ s, b ≠ 13 ∧ b ≠ 10

instance (s : Bytes) : Decidable (OneLine s) :=
  decidable_of_iff ((s.all fun b => b != 13 && b != 10) = true) (by simp [OneLine])

/-- A field line; the value keeps the blanks around it. -/
structure Field where
  name : Bytes
  value : Bytes
  named : name ≠ []
  token : name.all isTchar = true
  oneLine : OneLine value

namespace Field

def of (name value : String) (h : ascii name ≠ [] ∧ (ascii name).all isTchar = true ∧
    OneLine (ascii value)) : Field where
  name := ascii name
  value := ascii value
  named := h.1
  token := h.2.1
  oneLine := h.2.2

def line (f : Field) : Bytes := f.name ++ 58 :: f.value

def parse (l : Bytes) : Option Field :=
  let name := l.takeWhile (· ≠ 58)
  match l.dropWhile (· ≠ 58) with
  | [] => none
  | _ :: value =>
    if h : name ≠ [] ∧ name.all isTchar = true ∧ OneLine value then
      some ⟨name, value, h.1, h.2.1, h.2.2⟩
    else none

end Field

/-- A start line and field lines. -/
structure Block where
  startLine : Bytes
  fields : List Field
  started : startLine ≠ []
  oneLine : OneLine startLine

/-- The lines of a text, told apart at every CRLF. -/
def splitLines : Bytes → List Bytes
  | [] => [[]]
  | 13 :: 10 :: s => [] :: splitLines s
  | b :: s => (splitLines s).modifyHead (b :: ·)

namespace Block

def lines (b : Block) : List Bytes := b.startLine :: b.fields.map Field.line

/-- The text of a block, with the blank line that ends it. -/
def render (b : Block) : Bytes := crlf.intercalate b.lines ++ headerEnd

/-- Split a message at its first blank line and read the block in front of it. -/
def parse (s : Bytes) : Option (Block × Bytes) := do
  let i ← position headerEnd s
  match splitLines (s.take i) with
  | [] => none
  | start :: ls =>
    if h : start ≠ [] ∧ OneLine start then
      return (⟨start, ← ls.mapM Field.parse, h.1, h.2⟩, s.drop (i + headerEnd.length))
    else none

end Block

lemma OneLine.not_mem {s : Bytes} (h : OneLine s) : (13 : UInt8) ∉ s :=
  fun hm => (h 13 hm).1 rfl

lemma isTchar_ne {b : UInt8} (h : isTchar b = true) : b ≠ 58 ∧ b ≠ 13 ∧ b ≠ 10 ∧ b ≠ 32 := by
  refine ⟨?_, ?_, ?_, ?_⟩ <;> rintro rfl <;> exact absurd h (by decide)

namespace Field

variable (f : Field)

lemma isTchar_of_mem {b : UInt8} (h : b ∈ f.name) : isTchar b = true :=
  List.all_eq_true.mp f.token b h

lemma line_oneLine : OneLine f.line := by
  intro b hb
  rcases List.mem_append.mp hb with hb | hb
  · have hne := isTchar_ne (f.isTchar_of_mem hb)
    exact ⟨hne.2.1, hne.2.2.1⟩
  · rcases List.mem_cons.mp hb with rfl | hb
    · decide
    · exact f.oneLine b hb

lemma line_ne_nil : f.line ≠ [] := by simp [line]

theorem parse_line : parse f.line = some f := by
  have hname : ∀ b ∈ f.name, decide (b ≠ 58) = true := by
    intro b hb
    simpa using (isTchar_ne (f.isTchar_of_mem hb)).1
  have htake : f.line.takeWhile (· ≠ 58) = f.name := by
    rw [line, List.takeWhile_append_of_pos hname]
    simp
  have hdrop : f.line.dropWhile (· ≠ 58) = 58 :: f.value := by
    rw [line, List.dropWhile_append_of_pos hname]
    simp
  simp only [parse, htake, hdrop]
  rw [dif_pos ⟨f.named, f.token, f.oneLine⟩]

end Field

lemma splitLines_cons {b : UInt8} (hb : b ≠ 13) (s : Bytes) :
    splitLines (b :: s) = (splitLines s).modifyHead (b :: ·) := by
  rw [splitLines]
  exact fun _ h => absurd h hb

lemma splitLines_oneLine {l : Bytes} (h : OneLine l) : splitLines l = [l] := by
  induction l with
  | nil => rfl
  | cons b l ih =>
    obtain ⟨hb, hl⟩ := List.forall_mem_cons.mp h
    rw [splitLines_cons hb.1, ih hl]
    rfl

lemma splitLines_append {l : Bytes} (h : OneLine l) (s : Bytes) :
    splitLines (l ++ (crlf ++ s)) = l :: splitLines s := by
  induction l with
  | nil => rfl
  | cons b l ih =>
    obtain ⟨hb, hl⟩ := List.forall_mem_cons.mp h
    rw [List.cons_append, splitLines_cons hb.1, ih hl]
    rfl

theorem splitLines_intercalate {l : Bytes} {ls : List Bytes} (h : ∀ k ∈ l :: ls, OneLine k) :
    splitLines (crlf.intercalate (l :: ls)) = l :: ls := by
  induction ls generalizing l with
  | nil =>
    rw [List.intercalate_singleton]
    exact splitLines_oneLine (h l (by simp))
  | cons k ks ih =>
    have hrest : ∀ m ∈ k :: ks, OneLine m := fun m hm => h m (List.mem_cons_of_mem _ hm)
    rw [List.intercalate_cons_cons, List.append_assoc, splitLines_append (h l (by simp)), ih hrest]

lemma intercalate_head {k : Bytes} (hk : k ≠ []) (ks : List Bytes) :
    ∃ c ∈ k, ∃ s, crlf.intercalate (k :: ks) = c :: s := by
  obtain ⟨c, k, rfl⟩ := List.exists_cons_of_ne_nil hk
  cases ks with
  | nil => exact ⟨c, by simp, k, by rw [List.intercalate_singleton]⟩
  | cons m ms => exact ⟨c, by simp, _, List.intercalate_cons_cons⟩

lemma position_headerEnd_crlf {c : UInt8} (hc : c ≠ 13) (s : Bytes) :
    position headerEnd (crlf ++ c :: s) = (position headerEnd (c :: s)).map (2 + ·) := by
  have h1 : ¬headerEnd <+: 13 :: 10 :: c :: s := by
    rintro ⟨t, ht⟩
    simp only [headerEnd, List.cons_append, List.cons.injEq] at ht
    exact hc ht.2.2.1.symm
  have h2 : ¬headerEnd <+: 10 :: c :: s := by
    rintro ⟨t, ht⟩
    simp [headerEnd] at ht
  change position headerEnd (13 :: 10 :: c :: s) = _
  rw [position_cons, if_neg h1, position_cons, if_neg h2, Option.map_map]
  congr 1
  funext k
  simp only [Function.comp_apply]
  omega

theorem position_headerEnd {l : Bytes} {ls : List Bytes}
    (h : ∀ k ∈ l :: ls, OneLine k ∧ k ≠ []) (rest : Bytes) :
    position headerEnd (crlf.intercalate (l :: ls) ++ (headerEnd ++ rest)) =
      some (crlf.intercalate (l :: ls)).length := by
  induction ls generalizing l with
  | nil =>
    have hz : position headerEnd (headerEnd ++ rest) = some 0 :=
      position_eq_zero.mpr (List.prefix_append _ _)
    rw [List.intercalate_singleton, headerEnd,
      position_append_of_not_mem (h l (by simp)).1.not_mem, ← headerEnd, hz]
    rfl
  | cons k ks ih =>
    have hrest : ∀ m ∈ k :: ks, OneLine m ∧ m ≠ [] := fun m hm => h m (List.mem_cons_of_mem _ hm)
    have hpos := ih hrest
    obtain ⟨c, hc, s, hs⟩ := intercalate_head (hrest k (by simp)).2 ks
    have hc13 : c ≠ 13 := ((hrest k (by simp)).1 c hc).1
    rw [hs, List.cons_append] at hpos
    have hline : position headerEnd (l ++ (crlf ++ c :: (s ++ (headerEnd ++ rest)))) =
        (position headerEnd (crlf ++ c :: (s ++ (headerEnd ++ rest)))).map (l.length + ·) :=
      position_append_of_not_mem (h l (by simp)).1.not_mem _
    rw [List.intercalate_cons_cons, hs, List.append_assoc, List.append_assoc, List.cons_append,
      hline, position_headerEnd_crlf hc13, hpos]
    simp [crlf]
    omega

namespace Block

variable (b : Block)

lemma lines_oneLine : ∀ l ∈ b.lines, OneLine l ∧ l ≠ [] := by
  intro l hl
  rcases List.mem_cons.mp hl with rfl | hl
  · exact ⟨b.oneLine, b.started⟩
  · obtain ⟨f, _, rfl⟩ := List.mem_map.mp hl
    exact ⟨f.line_oneLine, f.line_ne_nil⟩

lemma mapM_parse_line (fs : List Field) : (fs.map Field.line).mapM Field.parse = some fs := by
  induction fs with
  | nil => rfl
  | cons f fs ih => simp [List.mapM_cons, f.parse_line, ih]

theorem position_render (rest : Bytes) :
    position headerEnd (b.render ++ rest) = some (crlf.intercalate b.lines).length := by
  rw [render, List.append_assoc]
  exact position_headerEnd b.lines_oneLine rest

/-- A block is read back from its text, whatever comes behind it. -/
theorem parse_render (rest : Bytes) : parse (b.render ++ rest) = some (b, rest) := by
  have htake : (b.render ++ rest).take (crlf.intercalate b.lines).length =
      crlf.intercalate b.lines := by
    rw [render, List.append_assoc, List.take_left]
  have hdrop : (b.render ++ rest).drop ((crlf.intercalate b.lines).length + headerEnd.length) =
      rest := List.drop_left' (by simp [render])
  have hsplit : splitLines (crlf.intercalate b.lines) = b.startLine :: b.fields.map Field.line :=
    splitLines_intercalate fun l hl => (b.lines_oneLine l hl).1
  simp only [parse, b.position_render, Option.bind_eq_bind, Option.bind_some, htake, hdrop, hsplit,
    mapM_parse_line]
  rw [dif_pos ⟨b.started, b.oneLine⟩]
  rfl

end Block

section Length

def toLower (b : UInt8) : UInt8 := if 65 ≤ b ∧ b ≤ 90 then b + 32 else b

def sameName (s t : Bytes) : Bool := s.map toLower = t.map toLower

def isBlank (b : UInt8) : Bool := b == 32 || b == 9

def trim (s : Bytes) : Bytes := (s.dropWhile isBlank).rdropWhile isBlank

def numeral? (s : Bytes) : Option ℕ :=
  if s ≠ [] ∧ s.all isDigit then some (readDecimal s) else none

def contentLengthName : Bytes := ascii "Content-Length"

def isLengthField (f : Field) : Bool := sameName f.name contentLengthName

/-- The length that the one field of that name declares. -/
def contentLength (fields : List Field) : Option ℕ :=
  match fields.filter isLengthField with
  | [f] => numeral? (trim f.value)
  | _ => none

/-- The body of a message, as long as its header declares, and what is left over. -/
def decode (s : Bytes) : Option (Bytes × Bytes) := do
  let (b, rest) ← Block.parse s
  let n ← contentLength b.fields
  if n ≤ rest.length then return (rest.take n, rest.drop n) else none

/-- Where the body ends that the header of a message declares. Lines that are no fields do not
count. -/
def bodyEnd (s : Bytes) : Option ℕ := do
  let i ← position headerEnd s
  let n ← contentLength ((splitLines (s.take i)).tail.filterMap Field.parse)
  return i + headerEnd.length + n

/-- A message up to the end of the body it declares; all of it if it declares none. -/
def throughBody (s : Bytes) : Bytes :=
  match bodyEnd s with
  | some k => s.take k
  | none => s

lemma bodyEnd_append {s : Bytes} {i : ℕ} (h : position headerEnd s = some i) (t : Bytes) :
    bodyEnd (s ++ t) = bodyEnd s := by
  have hi := position_length_le h
  have htake : (s ++ t).take i = s.take i := List.take_append_of_le_length (by omega)
  simp only [bodyEnd, h, position_append h t, htake, Option.bind_eq_bind, Option.bind_some]

lemma le_bodyEnd {s : Bytes} {k : ℕ} (h : bodyEnd s = some k) :
    ∃ i, position headerEnd s = some i ∧ i + headerEnd.length ≤ k := by
  obtain ⟨i, hi, h⟩ := Option.bind_eq_some_iff.mp h
  obtain ⟨n, -, h⟩ := Option.bind_eq_some_iff.mp h
  obtain rfl := Option.some.inj h
  exact ⟨i, hi, Nat.le_add_right _ _⟩

/-- More text extends the part up to the end of the body. -/
theorem throughBody_append (s t : Bytes) : throughBody s <+: throughBody (s ++ t) := by
  cases h : position headerEnd s with
  | some i =>
    unfold throughBody
    rw [bodyEnd_append h]
    cases bodyEnd s with
    | some k => exact (List.prefix_append s t).take k
    | none => exact List.prefix_append s t
  | none =>
    have hs : bodyEnd s = none := by simp [bodyEnd, h]
    simp only [throughBody, hs]
    cases hk : bodyEnd (s ++ t) with
    | none => exact List.prefix_append s t
    | some k =>
      obtain ⟨i, hi, hle⟩ := le_bodyEnd hk
      refine List.prefix_take_iff.mpr ⟨List.prefix_append s t, ?_⟩
      by_contra hlt
      have hearly := position_of_begins hi (List.prefix_append s t) (by omega)
      rw [h] at hearly
      cases hearly

lemma trim_append {u w s : Bytes} (hu : ∀ b ∈ u, isBlank b = true) (hw : ∀ b ∈ w, isBlank b = true)
    (hs : ∀ b ∈ s, isBlank b = false) : trim (u ++ s ++ w) = s := by
  cases s with
  | nil =>
    have hall : ∀ b ∈ u ++ [] ++ w, isBlank b = true := by
      simpa [or_imp, forall_and] using ⟨hu, hw⟩
    rw [trim, List.dropWhile_eq_nil_iff.mpr hall]
    rfl
  | cons b s =>
    have hb : isBlank b = false := hs b (by simp)
    have hdrop : (u ++ b :: s ++ w).dropWhile isBlank = b :: s ++ w := by
      rw [List.append_assoc, List.dropWhile_append_of_pos hu]
      simp [hb]
    have hlast : ∀ h : (b :: s) ≠ [], ¬isBlank ((b :: s).getLast h) = true := by
      intro h
      simp [hs _ (List.getLast_mem h)]
    rw [trim, hdrop, List.rdropWhile, List.reverse_append,
      List.dropWhile_append_of_pos (by simpa using hw)]
    exact List.rdropWhile_eq_self_iff.mpr hlast

lemma isBlank_of_isDigit {b : UInt8} (h : isDigit b = true) : isBlank b = false := by
  by_contra hb
  simp only [isBlank, Bool.not_eq_false, Bool.or_eq_true, beq_iff_eq] at hb
  rcases hb with rfl | rfl <;> exact absurd h (by decide)

theorem numeral?_trim {u w ds : Bytes} (hu : ∀ b ∈ u, isBlank b = true)
    (hw : ∀ b ∈ w, isBlank b = true) (hne : ds ≠ []) (hds : ∀ b ∈ ds, isDigit b = true) :
    numeral? (trim (u ++ ds ++ w)) = some (readDecimal ds) := by
  rw [trim_append hu hw fun b hb => isBlank_of_isDigit (hds b hb), numeral?,
    if_pos ⟨hne, List.all_eq_true.mpr hds⟩]

theorem exists_of_numeral?_trim {v : Bytes} {d : ℕ} (h : numeral? (trim v) = some d) :
    ∃ u ds w, v = u ++ ds ++ w ∧ (∀ b ∈ u, isBlank b = true) ∧ (∀ b ∈ w, isBlank b = true) ∧
      ds ≠ [] ∧ (∀ b ∈ ds, isDigit b = true) ∧ readDecimal ds = d := by
  unfold numeral? at h
  split_ifs at h with hdigits
  have hsplit : v = v.takeWhile isBlank ++ trim v ++ (v.dropWhile isBlank).rtakeWhile isBlank := by
    rw [List.append_assoc, trim, List.rdropWhile_append_rtakeWhile, List.takeWhile_append_dropWhile]
  refine ⟨_, _, _, hsplit, fun b hb => List.mem_takeWhile_imp hb, fun b hb => ?_, hdigits.1,
    List.all_eq_true.mp hdigits.2, Option.some.inj h⟩
  rw [List.rtakeWhile, List.mem_reverse] at hb
  exact List.mem_takeWhile_imp hb

theorem decode_render (b : Block) {n : ℕ} (hn : contentLength b.fields = some n) (s : Bytes) :
    decode (b.render ++ s) = if n ≤ s.length then some (s.take n, s.drop n) else none := by
  simp only [decode, b.parse_render, hn, Option.bind_eq_bind, Option.bind_some]
  rfl

/-- A body of the declared length is decoded, whatever comes behind it. -/
theorem decode_body (b : Block) {body : Bytes} (hn : contentLength b.fields = some body.length)
    (rest : Bytes) : decode (b.render ++ (body ++ rest)) = some (body, rest) := by
  rw [decode_render b hn, if_pos (by simp), List.take_left, List.drop_left]

end Length

end Gpd.Http
