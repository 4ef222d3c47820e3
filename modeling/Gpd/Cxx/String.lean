import Gpd.Text.Search
import Gpd.Text.Decimal

/-! The C++ strings the server computes with. Sizes are 64-bit and wrap around;
`find` reports failure as `npos`, the largest size. -/
namespace Gpd.Cxx
open Text

/-- Why a call does not return: its exception, by the call that raises it, or a use of what the
code never set up, a loop without an end, or a call outside its precondition. -/
inductive Fault
  | stoiInvalidArgument
  | stoiOutOfRange
  | substrOutOfRange
  | shutdownFailed
  | jsonParse
  | jsonDomain
  | wildPointer
  | endlessLoop
  | inconsistentGraph
  | assertFailed
  deriving DecidableEq, Repr

abbrev Bytes := List UInt8

abbrev Size := UInt64

/-- The bytes of a string literal. -/
def ascii (s : String) : Bytes := s.toList.map Char.toUInt8

/-- A line end of a header, and the end of its last line with the empty line behind it. -/
def crlf : Bytes := [13, 10]

def headerEnd : Bytes := [13, 10, 13, 10]

def npos : Size := 0xFFFFFFFFFFFFFFFF

def size (s : Bytes) : Size := UInt64.ofNat s.length

def find (s pat : Bytes) : Size :=
  match position pat s with
  | some i => UInt64.ofNat i
  | none => npos

/-- `s.substr(pos, n)` throws past the end and stops at the end. -/
def substr (s : Bytes) (pos n : Size) : Except Fault Bytes :=
  if s.length < pos.toNat then .error .substrOutOfRange
  else .ok ((s.drop pos.toNat).take n.toNat)

def isSpace (b : UInt8) : Bool := b == 32 || (9 ≤ b && b ≤ 13)

/-- Optional sign in front of a numeral: whether it is a minus, and the rest. -/
def splitSign : Bytes → Bool × Bytes
  | 45 :: s => (true, s)
  | 43 :: s => (false, s)
  | s => (false, s)

/-- `std::stoi`: white space, an optional sign, then digits up to the first other byte. -/
def stoi (s : Bytes) : Except Fault ℤ :=
  let t := splitSign (s.dropWhile isSpace)
  let digits := t.2.takeWhile isDigit
  if digits = [] then .error .stoiInvalidArgument
  else
    let v : ℤ := if t.1 then -(readDecimal digits : ℤ) else readDecimal digits
    if -2147483648 ≤ v ∧ v ≤ 2147483647 then .ok v else .error .stoiOutOfRange

@[simp] lemma ascii_length (s : String) : (ascii s).length = s.toList.length := by simp [ascii]

lemma ofInt_natCast (n : ℕ) : UInt64.ofInt n = UInt64.ofNat n := by
  rw [← UInt64.toNat_inj]
  simp [UInt64.ofInt]
  omega

lemma toNat_size {s : Bytes} (h : s.length < 2 ^ 64) : (size s).toNat = s.length :=
  UInt64.toNat_ofNat_of_lt' h

lemma find_of_position {s pat : Bytes} {i : ℕ} (h : position pat s = some i) :
    find s pat = UInt64.ofNat i := by simp [find, h]

lemma find_eq_npos {s pat : Bytes} (h : position pat s = none) : find s pat = npos := by
  simp [find, h]

lemma toNat_find {s pat : Bytes} {i : ℕ} (h : position pat s = some i)
    (hs : s.length < 2 ^ 64) : (find s pat).toNat = i := by
  have := position_length_le h
  rw [find_of_position h]
  exact UInt64.toNat_ofNat_of_lt' (show i < 2 ^ 64 by omega)

theorem find_eq_zero {s pat : Bytes} (hs : s.length < 2 ^ 64) :
    find s pat = 0 ↔ pat <+: s := by
  cases h : position pat s with
  | none =>
    have hno : ¬pat <+: s := fun hp => position_eq_none.mp h 0 (occursAt_zero.mpr hp)
    simp [find_eq_npos h, hno, npos]
  | some i =>
    rw [← position_eq_zero, h, ← UInt64.toNat_inj, toNat_find h hs]
    simp

lemma dropWhile_spaces {t : Bytes} (k : ℕ) (ht : t.dropWhile isSpace = t) :
    (List.replicate k 32 ++ t).dropWhile isSpace = t := by
  induction k with
  | zero => simpa using ht
  | succ k ih => simpa [List.replicate_succ, isSpace] using ih

lemma not_isSpace_of_isDigit {b : UInt8} (h : isDigit b = true) : isSpace b = false := by
  simp only [isDigit, Bool.and_eq_true, decide_eq_true_eq, UInt8.le_iff_toNat_le] at h
  simp only [isSpace, Bool.or_eq_false_iff, beq_eq_false_iff_ne, Bool.and_eq_false_iff,
    decide_eq_false_iff_not, UInt8.le_iff_toNat_le, ne_eq, ← UInt8.toNat_inj]
  have h1 : (48 : UInt8).toNat = 48 := rfl
  have h2 : (32 : UInt8).toNat = 32 := rfl
  have h3 : (9 : UInt8).toNat = 9 := rfl
  have h4 : (13 : UInt8).toNat = 13 := rfl
  omega

lemma splitSign_of_isDigit {b : UInt8} {s : Bytes} (h : isDigit b = true) :
    splitSign (b :: s) = (false, b :: s) := by
  unfold splitSign
  split <;> simp_all [isDigit]

/-- A numeral behind blanks and in front of a non-digit is read exactly. -/
theorem stoi_decimal {n : ℕ} (hn : n ≤ 2147483647) (k : ℕ) {t : Bytes}
    (ht : ∀ b ∈ t.head?, isDigit b = false) :
    stoi (List.replicate k 32 ++ decimal n ++ t) = .ok n := by
  obtain ⟨d, ds, hd⟩ := List.exists_cons_of_ne_nil (decimal_ne_nil n)
  have hdig : ∀ b ∈ decimal n, isDigit b = true := fun b hb => isDigit_of_mem_decimal hb
  have hhead : isDigit d = true := hdig d (by simp [hd])
  have hdrop : (List.replicate k 32 ++ decimal n ++ t).dropWhile isSpace = decimal n ++ t := by
    rw [List.append_assoc]
    exact dropWhile_spaces k (by simp [hd, not_isSpace_of_isDigit hhead])
  have hsign : splitSign (decimal n ++ t) = (false, decimal n ++ t) := by
    rw [hd, List.cons_append]
    exact splitSign_of_isDigit hhead
  have htail : t.takeWhile isDigit = [] := by
    cases t with
    | nil => rfl
    | cons b t => simp [ht b (by simp)]
  have htake : (decimal n ++ t).takeWhile isDigit = decimal n := by
    rw [List.takeWhile_append_of_pos hdig, htail, List.append_nil]
  simp only [stoi, hdrop, hsign, htake, decimal_ne_nil, readDecimal_decimal, if_false,
    Bool.false_eq_true]
  rw [if_pos (by omega)]

end Gpd.Cxx
