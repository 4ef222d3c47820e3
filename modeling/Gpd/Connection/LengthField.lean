import Gpd.Connection.HeaderCuts
import Gpd.Cxx.Numeral
import Gpd.Http.Message

/-! Which length `extractContentLength` takes from a first read, and when it is the one
that the read's length field declares. -/
namespace Gpd.Connection
open Cxx Text Machine

variable {host : Host} {buf v : Bytes}

/-- The read has `v` between its first "Content-Length:" and the end of that line. -/
structure LengthLine (buf v : Bytes) : Prop where
  split : ∃ pre post, buf = pre ++ (headerName ++ (v ++ (crlf ++ post))) ∧
    position headerName buf = some pre.length
  oneLine : ∀ i, ¬OccursAt crlf v i

lemma position_crlf_behind (h : ∀ i, ¬OccursAt crlf v i) (post : Bytes) :
    position crlf (v ++ (crlf ++ post)) = some v.length := by
  refine position_eq_some.mpr ⟨⟨v, post, by simp, rfl⟩, fun j hj => ?_⟩
  by_contra! hlt
  rcases Nat.lt_or_ge (j + 1) v.length with hin | hover
  · exact h j (hj.of_append (by simp; omega))
  · -- the occurrence would end in the carriage return behind `v`
    obtain ⟨w, t, he, rfl⟩ := hj
    have hget := congrArg (fun s : Bytes => s[w.length + 1]?) he
    have hlen : v.length = w.length + 1 := by omega
    simp [crlf, hlen] at hget

lemma LengthLine.lengthText (h : LengthLine buf v) : lengthText buf = some v := by
  obtain ⟨pre, post, rfl, hpos⟩ := h.split
  have hdrop : (pre ++ (headerName ++ (v ++ (crlf ++ post)))).drop
      (pre.length + headerName.length) = v ++ (crlf ++ post) := by
    rw [← List.append_assoc, List.drop_left' (by simp)]
  simp only [Connection.lengthText, hpos, Option.map_some, hdrop,
    position_crlf_behind h.oneLine post, List.take_left]

section Genuine

/-- The value is a string of digits between blanks, and `d` is the positive number it
denotes. -/
def Genuine (v : Bytes) (d : Size) : Prop :=
  Http.numeral? (Http.trim v) = some d.toNat ∧ 0 < d.toNat

/-- A length that is taken from the value, and not refused, is genuine. -/
def OnlyGenuine (host : Host) (buf v : Bytes) : Prop :=
  ∀ c, (extractContentLength host buf c).result = .ok () →
    ¬(extractContentLength host buf c).state.contentLength ≤ 0 →
    Genuine v (extractContentLength host buf c).state.contentLength

/-- Whatever number other than zero `stoi` finds in the value stands without a sign between
spaces and tabs. -/
def PlainNumber (v : Bytes) : Prop :=
  ∀ n : Numeral, n.text = v → n.InRange → n.value ≠ 0 →
    n.sign = [] ∧ (∀ b ∈ n.space, Http.isBlank b = true) ∧ ∀ b ∈ n.rest, Http.isBlank b = true

lemma isSpace_of_isBlank {b : UInt8} (h : Http.isBlank b = true) : isSpace b = true := by
  simp only [Http.isBlank, Bool.or_eq_true, beq_iff_eq] at h
  rcases h with rfl | rfl <;> decide

def plainNumeral (u ds w : Bytes) (hu : ∀ b ∈ u, Http.isBlank b = true)
    (hw : ∀ b ∈ w, Http.isBlank b = true) (hne : ds ≠ []) (hds : ∀ b ∈ ds, isDigit b = true) :
    Numeral where
  space := u
  sign := []
  digits := ds
  rest := w
  spaces := fun b hb => isSpace_of_isBlank (hu b hb)
  signs := .inl rfl
  nonempty := hne
  decimals := hds
  ends := by
    intro b hb
    by_contra hd
    have hblank := Http.isBlank_of_isDigit (Bool.eq_true_of_not_eq_false hd)
    rw [hw b (List.mem_of_mem_head? hb)] at hblank
    cases hblank

lemma exists_plainNumeral {d : ℕ} (h : Http.numeral? (Http.trim v) = some d) :
    ∃ n : Numeral, n.text = v ∧ n.value = d ∧ n.sign = [] ∧
      (∀ b ∈ n.space, Http.isBlank b = true) ∧ ∀ b ∈ n.rest, Http.isBlank b = true := by
  obtain ⟨u, ds, w, rfl, hu, hw, hne, hds, rfl⟩ := Http.exists_of_numeral?_trim h
  exact ⟨plainNumeral u ds w hu hw hne hds, by simp [plainNumeral, Numeral.text],
    by simp [plainNumeral, Numeral.value], rfl, hu, hw⟩

lemma toNat_ofInt {x : ℤ} (h0 : 0 ≤ x) (hx : x ≤ 2147483647) :
    (UInt64.ofInt x).toNat = x.toNat := by
  obtain ⟨k, rfl⟩ := Int.eq_ofNat_of_zero_le h0
  rw [ofInt_natCast]
  exact UInt64.toNat_ofNat_of_lt' (show k < 2 ^ 64 by omega)

lemma ofInt_eq_zero {x : ℤ} (hmin : -2147483648 ≤ x) (hmax : x ≤ 2147483647) :
    UInt64.ofInt x = 0 ↔ x = 0 := by
  constructor
  · intro h
    have hnat := congrArg UInt64.toNat h
    simp [UInt64.ofInt] at hnat
    omega
  · rintro rfl
    rfl

lemma LengthLine.extractContentLength_apply (h : LengthLine buf v) (hlen : buf.length ≤ bufferSize)
    (host : Host) (c : TcpConnection) :
    extractContentLength host buf c =
      match stoi v with
      | .ok x => ⟨.ok (), { c with contentLength := UInt64.ofInt x }, []⟩
      | .error e => ⟨.error e, c, []⟩ := by
  have hlt : buf.length < 2 ^ 64 := lt_of_le_bufferSize hlen
  rw [Connection.extractContentLength_apply, parseContentLength_of_lengthText host hlt h.lengthText]
  cases stoi v <;> rfl

/-- Only genuine positive lengths are accepted from values in which `stoi` finds no other
number: no sign, no other white space in front, and no garbage behind it. -/
theorem onlyGenuine_iff (host : Host) (h : LengthLine buf v) (hlen : buf.length ≤ bufferSize) :
    OnlyGenuine host buf v ↔ PlainNumber v := by
  unfold OnlyGenuine
  simp only [h.extractContentLength_apply hlen]
  constructor
  · intro hgenuine n hn hrange hne
    have hread : stoi v = .ok n.value := stoi_eq_ok_iff.mpr ⟨n, hn, hrange, rfl⟩
    have hnonzero : ¬UInt64.ofInt n.value ≤ 0 := by
      rw [size_le_zero, ofInt_eq_zero hrange.1 hrange.2]
      exact hne
    have hvalue := hgenuine TcpConnection.new
    simp only [hread] at hvalue
    obtain ⟨m, hm, _, hplain⟩ := exists_plainNumeral (hvalue trivial hnonzero).1
    obtain rfl := Numeral.text_injective (hm.trans hn.symm)
    exact hplain
  · intro hplain c hok hnonzero
    cases hread : stoi v with
    | error e => simp [hread] at hok
    | ok x =>
      obtain ⟨n, rfl, hrange, rfl⟩ := stoi_eq_ok_iff.mp hread
      simp only [hread, size_le_zero, ofInt_eq_zero hrange.1 hrange.2] at hnonzero ⊢
      obtain ⟨hsign, hspace, hrest⟩ := hplain n rfl hrange hnonzero
      have hvalue : n.value = readDecimal n.digits := by simp [Numeral.value, hsign]
      have htext : n.text = n.space ++ n.digits ++ n.rest := by simp [Numeral.text, hsign]
      have hnat : (UInt64.ofInt n.value).toNat = readDecimal n.digits := by
        rw [toNat_ofInt (by omega) hrange.2, hvalue, Int.toNat_natCast]
      refine ⟨?_, ?_⟩
      · rw [hnat, htext]
        exact Http.numeral?_trim hspace hrest n.nonempty n.decimals
      · omega

lemma plainNumber_of_numeral? {d : ℕ} (h : Http.numeral? (Http.trim v) = some d) :
    PlainNumber v := by
  intro n hn _ _
  obtain ⟨m, hm, _, hplain⟩ := exists_plainNumeral h
  obtain rfl := Numeral.text_injective (hm.trans hn.symm)
  exact hplain

lemma lengthLine_sample (pre value post : Bytes)
    (hname : position headerName (pre ++ (headerName ++ (value ++ (crlf ++ post)))) =
      some pre.length)
    (hvalue : position crlf value = none) :
    LengthLine (pre ++ (headerName ++ (value ++ (crlf ++ post)))) value :=
  ⟨⟨pre, post, rfl, hname⟩, position_eq_none.mp hvalue⟩

theorem onlyGenuine_iff_five :
    OnlyGenuine Host.echo (ascii "POST / HTTP/1.1\r\nContent-Length: 5\r\n\r\n") (ascii " 5") := by
  have hline := lengthLine_sample (ascii "POST / HTTP/1.1\r\n") (ascii " 5") crlf
    (by decide) (by decide)
  exact (onlyGenuine_iff Host.echo hline (by decide)).mpr
    (plainNumber_of_numeral? (d := 5) (by decide))

/-- A negative length is accepted, as a huge one. -/
theorem not_onlyGenuine :
    ¬∀ (host : Host) (buf v : Bytes), ascii "POST" <+: buf → LengthLine buf v →
      buf.length ≤ bufferSize → OnlyGenuine host buf v := by
  intro h
  have hline := lengthLine_sample (ascii "POST / HTTP/1.1\r\n") (ascii " -5") crlf
    (by decide) (by decide)
  have hgenuine := h Host.echo _ _ (by decide) hline (by decide) TcpConnection.new (by decide)
    (by decide)
  exact absurd hgenuine.1 (by decide)

end Genuine

section Named

open Http

variable {b : Block} {rest : Bytes} {d : ℕ}

def SetsLength (buf : Bytes) (d : ℕ) : Prop :=
  ∀ host c, extractContentLength host buf c =
    ⟨.ok (), { c with contentLength := UInt64.ofNat d }, []⟩

def Denotes (v : Bytes) (d : ℕ) : Prop := ∃ n : Numeral, n.text = v ∧ n.value = d

/-- The name "Content-Length:" stands nowhere in the line. -/
def Nameless (l : Bytes) : Prop := position headerName l = none

/-- The length field is spelled "Content-Length", and no line of the block in front of it holds
that name. -/
def NamedFirst (b : Block) : Prop :=
  ∃ pre f post, b.fields = pre ++ f :: post ∧ f.name = ascii "Content-Length" ∧
    ∀ l ∈ b.startLine :: pre.map Field.line, Nameless l

/-- The first "Content-Length:" stands in the start line, in a field of another name or behind
the block, and the text between it and the end of its line happens to denote `d`. -/
inductive Astray (b : Block) (rest : Bytes) (d : ℕ) : Prop
  | startLine (k : ℕ) (h : position headerName b.startLine = some k)
      (hd : Denotes (b.startLine.drop (k + headerName.length)) d)
  | field (pre post : List Field) (f : Field) (k : ℕ) (hfields : b.fields = pre ++ f :: post)
      (hother : f.name ≠ ascii "Content-Length")
      (hfront : ∀ l ∈ b.startLine :: pre.map Field.line, Nameless l)
      (h : position headerName f.line = some k)
      (hd : Denotes (f.line.drop (k + headerName.length)) d)
  | behind (v : Bytes) (hblock : ∀ l ∈ b.lines, Nameless l) (h : lengthText rest = some v)
      (hd : Denotes v d)

lemma value_of_contentLength {fs pre post : List Field} {f : Field} (hd : contentLength fs = some d)
    (hfs : fs = pre ++ f :: post) (hf : isLengthField f = true) :
    numeral? (trim f.value) = some d := by
  have hmem : f ∈ fs.filter isLengthField := List.mem_filter.mpr ⟨by simp [hfs], hf⟩
  unfold contentLength at hd
  split at hd
  · rename_i g hg
    rw [hg] at hmem
    obtain rfl := List.mem_singleton.mp hmem
    exact hd
  · cases hd

lemma not_occursAt_crlf (h : OneLine v) (i : ℕ) : ¬OccursAt crlf v i := by
  rintro ⟨u, w, rfl, _⟩
  have hcr : (13 : UInt8) ∈ crlf := by decide
  exact h.not_mem (List.mem_append_left w (List.mem_append_right u hcr))

def nameText (l : Bytes) : Option Bytes :=
  (position headerName l).map fun k => l.drop (k + headerName.length)

lemma nameText_eq_none {l : Bytes} : nameText l = none ↔ Nameless l := Option.map_eq_none_iff

lemma lengthText_line {l : Bytes} (hl : OneLine l) (t : Bytes) :
    lengthText (l ++ (crlf ++ t)) = (nameText l).or (lengthText t) := by
  have hne : headerName ≠ [] := by decide
  have hpos : position headerName (l ++ (crlf ++ t)) =
      (position headerName l).or ((position headerName t).map (l.length + 2 + ·)) := by
    have htail : position headerName (10 :: t) = (position headerName t).map (1 + ·) :=
      position_append_cons (x := []) (by decide) hne t
    have hcons : position headerName (l ++ (crlf ++ t)) =
        (position headerName l).or ((position headerName (10 :: t)).map (l.length + 1 + ·)) :=
      position_append_cons (by decide) hne l (10 :: t)
    rw [hcons, htail, Option.map_map]
    congr 2
    funext i
    simp only [Function.comp_apply]
    omega
  rw [lengthText, hpos, nameText]
  cases hk : position headerName l with
  | some k =>
    have hle := position_length_le hk
    have hdrop : (l ++ (crlf ++ t)).drop (k + headerName.length) =
        l.drop (k + headerName.length) ++ (crlf ++ t) := List.drop_append_of_le_length hle
    have hline : OneLine (l.drop (k + headerName.length)) :=
      fun b hb => hl b (List.mem_of_mem_drop hb)
    simp only [Option.some_or, Option.map_some, hdrop,
      position_crlf_behind (not_occursAt_crlf hline) t, List.take_left]
  | none =>
    have hdrop (i : ℕ) : (l ++ (crlf ++ t)).drop (l.length + 2 + i + headerName.length) =
        t.drop (i + headerName.length) := by
      rw [← List.append_assoc, ← List.drop_drop, ← List.drop_drop, List.drop_drop,
        List.drop_left' (by simp)]
    simp only [Option.map_none, Option.none_or, lengthText, Option.map_map]
    congr 1
    funext i
    simp only [Function.comp_apply, hdrop]

/-- The length is taken from the first line of the block that holds the name, or from what comes
behind the block. -/
theorem lengthText_render (b : Block) (rest : Bytes) :
    lengthText (b.render ++ rest) = (b.lines.findSome? nameText).or (lengthText rest) := by
  have hlines : ∀ l ls, (∀ m ∈ l :: ls, OneLine m) →
      lengthText (crlf.intercalate (l :: ls) ++ (crlf ++ (crlf ++ rest))) =
        ((l :: ls).findSome? nameText).or (lengthText rest) := by
    intro l ls h
    induction ls generalizing l with
    | nil =>
      have hempty : lengthText (crlf ++ rest) = lengthText rest :=
        lengthText_line (l := []) (by simp [OneLine]) rest
      rw [List.intercalate_singleton, lengthText_line (h l (by simp)), hempty]
      cases hl : nameText l <;> simp [hl]
    | cons m ms ih =>
      rw [List.intercalate_cons_cons, List.append_assoc, List.append_assoc,
        lengthText_line (h l (by simp)), ih m fun k hk => h k (List.mem_cons_of_mem _ hk),
        List.findSome?_cons (a := l)]
      cases nameText l <;> rfl
  have hrender : b.render ++ rest = crlf.intercalate b.lines ++ (crlf ++ (crlf ++ rest)) := by
    rw [Block.render, List.append_assoc]
    rfl
  rw [hrender]
  exact hlines b.startLine (b.fields.map Field.line) fun l hl => (b.lines_oneLine l hl).1

lemma NamedFirst.denotes (h : NamedFirst b) (hd : contentLength b.fields = some d)
    (rest : Bytes) : ∃ v, lengthText (b.render ++ rest) = some v ∧ Denotes v d := by
  obtain ⟨pre, f, post, hfields, hname, hfront⟩ := h
  have hlength : isLengthField f = true := by
    rw [isLengthField, hname]
    decide
  have hcolon : f.line = headerName ++ f.value := by
    have hheader : headerName = ascii "Content-Length" ++ [58] := by decide
    rw [Field.line, hname, hheader, List.append_assoc, List.singleton_append]
  have htext : nameText f.line = some f.value := by
    have hpos : position headerName f.line = some 0 :=
      position_eq_zero.mpr (hcolon ▸ List.prefix_append _ _)
    rw [nameText, hpos, hcolon, Option.map_some, Nat.zero_add, List.drop_left]
  have hfirst : b.lines.findSome? nameText = some f.value := by
    refine List.findSome?_eq_some_iff.mpr ⟨b.startLine :: pre.map Field.line, f.line,
      post.map Field.line, by simp [Block.lines, hfields], htext, fun l hl => ?_⟩
    exact nameText_eq_none.mpr (hfront l hl)
  obtain ⟨n, hn, hvalue, _⟩ := exists_plainNumeral (value_of_contentLength hd hfields hlength)
  exact ⟨f.value, by rw [lengthText_render, hfirst, Option.some_or], n, hn, hvalue⟩

lemma Astray.denotes (h : Astray b rest d) :
    ∃ v, lengthText (b.render ++ rest) = some v ∧ Denotes v d := by
  rw [lengthText_render]
  cases h with
  | startLine k h hd =>
    have hfirst : b.lines.findSome? nameText = some (b.startLine.drop (k + headerName.length)) := by
      simp [Block.lines, nameText, h]
    exact ⟨_, by rw [hfirst, Option.some_or], hd⟩
  | field pre post f k hfields _ hfront h hd =>
    have hfirst : b.lines.findSome? nameText = some (f.line.drop (k + headerName.length)) := by
      refine List.findSome?_eq_some_iff.mpr ⟨b.startLine :: pre.map Field.line, f.line,
        post.map Field.line, by simp [Block.lines, hfields], by simp [nameText, h], fun l hl => ?_⟩
      exact nameText_eq_none.mpr (hfront l hl)
    exact ⟨_, by rw [hfirst, Option.some_or], hd⟩
  | behind v hblock h hd =>
    have hnone : b.lines.findSome? nameText = none :=
      List.findSome?_eq_none_iff.mpr fun l hl => nameText_eq_none.mpr (hblock l hl)
    exact ⟨v, by rw [hnone, Option.none_or, h], hd⟩

lemma namedFirst_or_astray (h : ∃ v, lengthText (b.render ++ rest) = some v ∧ Denotes v d) :
    NamedFirst b ∨ Astray b rest d := by
  obtain ⟨v, hv, hd⟩ := h
  rw [lengthText_render] at hv
  cases hfirst : b.lines.findSome? nameText with
  | none =>
    rw [hfirst, Option.none_or] at hv
    exact .inr (.behind v (fun l hl => nameText_eq_none.mp
      (List.findSome?_eq_none_iff.mp hfirst l hl)) hv hd)
  | some w =>
    rw [hfirst, Option.some_or] at hv
    obtain rfl := Option.some.inj hv
    obtain ⟨ls, l, ms, hlines, hl, hls⟩ := List.findSome?_eq_some_iff.mp hfirst
    obtain ⟨k, hk, rfl⟩ := Option.map_eq_some_iff.mp hl
    cases ls with
    | nil =>
      obtain ⟨rfl, -⟩ := List.cons.inj hlines
      exact .inr (.startLine k hk hd)
    | cons start ls =>
      obtain ⟨rfl, hfields⟩ := List.cons.inj hlines
      obtain ⟨pre, fs, hsplit, rfl, hfs⟩ := List.map_eq_append_iff.mp hfields
      obtain ⟨f, post, rfl, rfl, -⟩ := List.map_eq_cons_iff.mp hfs
      have hfront : ∀ l ∈ b.startLine :: pre.map Field.line, Nameless l :=
        fun l hl => nameText_eq_none.mp (hls l hl)
      by_cases hname : f.name = ascii "Content-Length"
      · exact .inl ⟨pre, f, post, hsplit, hname, hfront⟩
      · exact .inr (.field pre post f k hsplit hname hfront hk hd)

lemma ofInt_eq_ofNat {x : ℤ} (hmin : -2147483648 ≤ x) (hmax : x ≤ 2147483647)
    (hd : d ≤ 2147483647) : UInt64.ofInt x = UInt64.ofNat d ↔ x = d := by
  constructor
  · intro h
    have hnat := congrArg UInt64.toNat h
    simp [UInt64.ofInt] at hnat
    omega
  · rintro rfl
    exact ofInt_natCast d

lemma declaredLength_eq_iff (hd : d ≤ 2147483647) :
    declaredLength buf = some (UInt64.ofNat d) ↔ ∃ v, lengthText buf = some v ∧ Denotes v d := by
  rw [declaredLength]
  constructor
  · intro h
    obtain ⟨t, ht, hread⟩ := Option.bind_eq_some_iff.mp h
    cases hx : stoi t with
    | error e => simp [hx, Except.toOption] at hread
    | ok x =>
      obtain ⟨n, rfl, hrange, rfl⟩ := stoi_eq_ok_iff.mp hx
      have hvalue : UInt64.ofInt n.value = UInt64.ofNat d := by
        simpa [hx, Except.toOption] using hread
      exact ⟨_, ht, n, rfl, (ofInt_eq_ofNat hrange.1 hrange.2 hd).mp hvalue⟩
  · rintro ⟨v, hv, n, rfl, hvalue⟩
    have hx : stoi n.text = .ok n.value :=
      stoi_eq_ok_iff.mpr ⟨n, rfl, ⟨by omega, by omega⟩, rfl⟩
    simp [hv, hx, Except.toOption, hvalue, ofInt_natCast]

/-- `m_contentLength` is set to the length that the block declares exactly when its length
field is spelled "Content-Length" and that name, with the colon, stands nowhere in front of
it, or when the text behind the name at another place happens to denote the same number. -/
theorem setsLength_iff (hd : contentLength b.fields = some d) (hmax : d ≤ 2147483647)
    (hlen : (b.render ++ rest).length ≤ bufferSize) :
    SetsLength (b.render ++ rest) d ↔ NamedFirst b ∨ Astray b rest d := by
  have hplaces : NamedFirst b ∨ Astray b rest d ↔
      declaredLength (b.render ++ rest) = some (UInt64.ofNat d) := by
    rw [declaredLength_eq_iff hmax]
    exact ⟨fun h => h.elim (fun h => h.denotes hd rest) Astray.denotes, namedFirst_or_astray⟩
  rw [hplaces]
  generalize b.render ++ rest = buf at hlen
  constructor
  · intro h
    apply parseContentLength_strict hlen
    have hset := h Host.strict TcpConnection.new
    rw [extractContentLength_apply] at hset
    cases hp : parseContentLength Host.strict buf with
    | error e => simp [hp] at hset
    | ok d' =>
      simp only [hp, Outcome.mk.injEq, true_and, and_true] at hset
      exact congrArg Except.ok (congrArg TcpConnection.contentLength hset)
  · intro h host c
    rw [extractContentLength_apply,
      parseContentLength_of_declared host (lt_of_le_bufferSize hlen) h]

def postHeader (fields : List Field) : Block where
  startLine := ascii "POST / HTTP/1.1"
  fields := fields
  started := by decide +kernel
  oneLine := by decide +kernel

def sampleLength : Field := .of "Content-Length" " 5" (by decide +kernel)

def sampleNamesake : Field := .of "X-Content-Length" " 7" (by decide +kernel)

theorem setsLength_iff_five :
    SetsLength ((postHeader [sampleLength, sampleNamesake]).render ++ []) 5 := by
  have hfirst : NamedFirst (postHeader [sampleLength, sampleNamesake]) :=
    ⟨[], sampleLength, [sampleNamesake], rfl, rfl, by simp [Nameless]; decide⟩
  exact (setsLength_iff (by decide) (by decide) (by decide)).mpr (.inl hfirst)

/-- In front of the length field its namesake is read instead. -/
theorem not_setsLength :
    ¬∀ (b : Block) (rest : Bytes) (d : ℕ), ascii "POST " <+: b.startLine →
      contentLength b.fields = some d → 1 ≤ d → d ≤ 2147483647 →
      (b.render ++ rest).length ≤ bufferSize → SetsLength (b.render ++ rest) d := by
  intro h
  have hset := h (postHeader [sampleNamesake, sampleLength]) [] 5 (by decide)
    (by decide) (by decide) (by decide) (by decide) Host.echo TcpConnection.new
  have hread : (extractContentLength Host.echo
      ((postHeader [sampleNamesake, sampleLength]).render ++ [])
      TcpConnection.new).state.contentLength = 7 := by decide
  rw [hset] at hread
  exact absurd hread (by decide)

end Named

end Gpd.Connection
