import Gpd.Connection.Stream

/-! Well-formed POST requests, their partitions into reads, and the declared length as
a property of the request text alone. -/
namespace Gpd.Connection
open Cxx Text Machine

/-- The text behind the first "Content-Length:", up to the end of its line. -/
def lengthText (s : Bytes) : Option Bytes :=
  (position headerName s).map fun i =>
    let line := s.drop (i + headerName.length)
    match position crlf line with
    | some j => line.take j
    | none => line

/-- The length a text declares, if that text is a number in the range of `int`. -/
def declaredLength (s : Bytes) : Option Size :=
  (lengthText s).bind fun t => (stoi t).toOption.map UInt64.ofInt

lemma carriageReturn_not_mem_headerName : (13 : UInt8) ∉ headerName := by decide

theorem parseContentLength_of_lengthText (host : Host) {s t : Bytes} (hlen : s.length < 2 ^ 64)
    (ht : lengthText s = some t) :
    parseContentLength host s = (do pure (UInt64.ofInt (← stoi t)) : Except Fault Size) := by
  obtain ⟨i, hi, rfl⟩ := Option.map_eq_some_iff.mp ht
  have hle := position_length_le hi
  obtain ⟨u, v, rfl, rfl⟩ := (position_eq_some.mp hi).1
  rw [List.append_assoc] at hi hle hlen ⊢
  have hsuffix : suffixFrom host (u ++ (headerName ++ v)) (find (u ++ (headerName ++ v)) headerName)
      = .ok (headerName ++ v) := by
    rw [suffixFrom, toNat_find hi hlen, if_pos (by simp), List.drop_left]
  have hline : (u ++ (headerName ++ v)).drop (u.length + headerName.length) = v := by
    rw [← List.append_assoc, List.drop_left' (by simp)]
  have hsize : (size headerName).toNat = 15 := rfl
  simp only [List.length_append, headerName_length] at hlen
  rw [parseContentLength, hsuffix, ok_bind, hline]
  have hpos : position crlf (headerName ++ v) = (position crlf v).map (15 + ·) :=
    position_append_of_not_mem carriageReturn_not_mem_headerName v
  have hsub : substr (headerName ++ v) (size headerName)
      (find (headerName ++ v) crlf - size headerName) =
      .ok (match position crlf v with | some j => v.take j | none => v) := by
    have hdrop : (headerName ++ v).drop (size headerName).toNat = v :=
      List.drop_left' (by simp [hsize])
    rw [substr, hdrop, if_neg (by simp [hsize])]
    cases hj : position crlf v with
    | none =>
      rw [hj] at hpos
      rw [find_eq_npos hpos, List.take_of_length_le]
      have : (npos - size headerName).toNat = 2 ^ 64 - 16 := rfl
      omega
    | some j =>
      rw [hj, Option.map_some] at hpos
      have hjlen := position_length_le hj
      have hto : (find (headerName ++ v) crlf).toNat = 15 + j := toNat_find hpos (by simp; omega)
      rw [UInt64.toNat_sub_of_le _ _ (by rw [UInt64.le_iff_toNat_le, hto, hsize]; omega), hto,
        hsize]
      simp
  rw [hsub, ok_bind]

theorem parseContentLength_eq_ok_iff (host : Host) {s : Bytes} (hlen : s.length < 2 ^ 64)
    {i : ℕ} (hi : OccursAt headerName s i) {d : Size} :
    parseContentLength host s = .ok d ↔ declaredLength s = some d := by
  obtain ⟨j, _, hj⟩ := exists_position hi
  obtain ⟨t, ht⟩ : ∃ t, lengthText s = some t := by simp [lengthText, hj]
  rw [parseContentLength_of_lengthText host hlen ht, declaredLength, ht, Option.bind_some]
  cases stoi t <;> simp [Except.toOption]

theorem lengthText_append {s : Bytes} {i j : ℕ} (hi : OccursAt headerName s i)
    (hj : OccursAt crlf s j) (hij : i + headerName.length ≤ j) (t : Bytes) :
    lengthText (s ++ t) = lengthText s := by
  obtain ⟨k, hk, hpos⟩ := exists_position hi
  have hle := position_length_le hpos
  have hdrop : (s ++ t).drop (k + headerName.length) = s.drop (k + headerName.length) ++ t :=
    List.drop_append_of_le_length hle
  obtain ⟨u, v, rfl, rfl⟩ := hj
  have hline : OccursAt crlf ((u ++ crlf ++ v).drop (k + headerName.length))
      (u.length - (k + headerName.length)) :=
    ⟨u.drop (k + headerName.length), v,
      by rw [List.append_assoc, List.drop_append_of_le_length (by omega), List.append_assoc],
      by simp⟩
  obtain ⟨l, _, hl⟩ := exists_position hline
  have hllen := position_length_le hl
  simp only [lengthText, position_append hpos, hpos, Option.map_some, hdrop, position_append hl, hl]
  rw [List.take_append_of_le_length (by omega)]

theorem declaredLength_append {s : Bytes} {i j : ℕ} (hi : OccursAt headerName s i)
    (hj : OccursAt crlf s j) (hij : i + headerName.length ≤ j) (t : Bytes) :
    declaredLength (s ++ t) = declaredLength s := by
  rw [declaredLength, lengthText_append hi hj hij, declaredLength]

def lengthField (n : ℕ) : Bytes := crlf ++ headerName ++ ascii " " ++ decimal n ++ crlf

/-- A header block that ends at its first blank line and has one length field, followed
by a body of the declared length. -/
structure PostRequest (H B : Bytes) (n : ℕ) : Prop where
  post : ascii "POST " <+: H
  ends : position headerEnd H = some (H.length - 4)
  field : ∃ i, OccursAt (lengthField n) H i
  single : ∀ i j, OccursAt (crlf ++ headerName) H i → OccursAt (crlf ++ headerName) H j → i = j
  length : B.length = n

/-- Cutting a byte string into non-empty reads that fit the buffer. -/
structure Partition (reads : List Bytes) (s : Bytes) : Prop where
  flatten : reads.flatten = s
  nonempty : ∀ b ∈ reads, b ≠ []
  bounded : ∀ b ∈ reads, b.length ≤ bufferSize

section Request

variable {H B : Bytes} {n : ℕ} (h : PostRequest H B n)
include h

lemma PostRequest.four_le : 4 ≤ H.length := by
  have := position_length_le h.ends
  simp at this
  omega

lemma PostRequest.begins_post : ascii "POST" <+: H :=
  (by decide : ascii "POST" <+: ascii "POST ").trans h.post

lemma PostRequest.exists_name :
    ∃ i j, OccursAt headerName H i ∧ OccursAt crlf H j ∧ i + headerName.length ≤ j := by
  obtain ⟨k, u, v, hH, rfl⟩ := h.field
  refine ⟨u.length + 2, u.length + 2 + 15 + 1 + (decimal n).length, ?_, ?_, by simp; omega⟩
  · exact ⟨u ++ crlf, ascii " " ++ decimal n ++ crlf ++ v, by simp [hH, lengthField], by simp⟩
  · exact ⟨u ++ crlf ++ headerName ++ ascii " " ++ decimal n, v, by simp [hH, lengthField],
      by simp; omega⟩

section FirstRead

variable {first : Bytes} (hfirst : H <+: first)
include hfirst

lemma PostRequest.bodyStart_eq : bodyStart first = H.length := by
  have h4 := h.four_le
  obtain ⟨t, rfl⟩ := hfirst
  rw [bodyStart_of_position (position_append h.ends t)]
  omega

lemma PostRequest.parse_iff (host : Host) (hlen : first.length < 2 ^ 64) {d : Size} :
    parseContentLength host first = .ok d ↔ declaredLength H = some d := by
  obtain ⟨i, j, hi, hj, hij⟩ := h.exists_name
  obtain ⟨t, rfl⟩ := hfirst
  rw [parseContentLength_eq_ok_iff host hlen (hi.append t), declaredLength_append hi hj hij]

end FirstRead

end Request

def sampleHeader : Bytes := ascii "POST / HTTP/1.1\r\nContent-Length: 3\r\n\r\n"

lemma sampleHeader_request : PostRequest sampleHeader (ascii "abc") 3 where
  post := by decide
  ends := by decide
  field := ⟨15, by decide⟩
  single := occursAt_unique (k := 15) (by decide)
  length := by decide

section Reads

variable {reads : List Bytes} {s : Bytes} (h : Partition reads s)
include h

lemma Partition.reads_ok : ∀ b ∈ reads, b ≠ [] ∧ b.length < 2 ^ 64 := fun b hb =>
  ⟨h.nonempty b hb, lt_of_le_bufferSize (h.bounded b hb)⟩

end Reads

end Gpd.Connection
